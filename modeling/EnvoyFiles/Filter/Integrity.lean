import EnvoyFiles.Filter.Body
import EnvoyFiles.Filter.Protocol

/-!
# Streaming integrity

Runs from `begin_streaming` on.  When each read returns the requested bytes of
the file, the data sent is at every moment a prefix of the planned body, and all
of it when `pump` ends the stream.
-/

namespace EnvoyFiles.Filter

open Range

/-! ## The start of a body -/

/-- The state in which an opened file is served: nothing is outstanding and no
data has been sent. -/
structure Fresh (w : State) : Prop where
  pending : w.pending = []
  events : w.bridge.events = []
  bridge : w.bridge ≠ .closed
  batch : w.batch = []
  active : w.complete = false
  sends : dataSends w.trace = []

/-- A waiting response has sent no data. -/
theorem dataSends_of_waiting {trace : List Call}
    (h : StageRun .waiting trace .waiting) : dataSends trace = [] := by
  rw [dataSends, List.filterMap_eq_nil_iff]
  intro call hcall
  cases call with
  | sendResponseData caller data endStream =>
      obtain ⟨before, after, rfl⟩ := List.append_of_mem hcall
      obtain ⟨u, v, -, -, hnext, hafter⟩ := h.split_middle
      cases u with
      | waiting => cases hnext
      | ended => cases hnext
      | body =>
          cases endStream <;> cases hnext <;>
            cases stageRun_waiting hafter
  | _ => rfl

/-- In every run an open event is handled in a fresh state. -/
theorem fresh_of_opening {cfg : Config} {s : State} {event : IoEvent}
    {rest : List IoEvent} (haccount : Accounted cfg s) (hobeys : Obeys s)
    (hbatch : s.batch = event :: rest) (hread : event.isRead = false) :
    Fresh { s with batch := rest } := by
  obtain ⟨hphase, hwork⟩ := haccount.opening hbatch hread
  have hactive := haccount.active hbatch
  obtain ⟨hpending, hevents, hrest⟩ := work_eq_zero_iff.mp hwork
  refine ⟨hpending, hevents, haccount.bridge hactive, hrest, hactive, ?_⟩
  rw [Obeys] at hobeys
  rw [stage_of_resolving hphase] at hobeys
  exact dataSends_of_waiting hobeys

section Runs

variable {crates : Crates} {cfg : Config} {env : Env} {w s t : State}
  {owes : Chunk → Bytes → Prop} {chunks : List Chunk}
  {plan : ResponsePlan} {handle : FileHandle} {prefetched : Bytes}
  {actions : List Action}

theorem delivering_moves (henv : env.Supplies owes)
    (hmoves : Moves crates cfg env s t) (haccount : Accounted cfg s)
    (h : Delivering owes chunks s) :
    Accounted cfg t ∧ Delivering owes chunks t := by
  refine Transition.closure_invariant
    (I := fun s => Accounted cfg s ∧ Delivering owes chunks s) hmoves ?_
    ⟨haccount, h⟩
  rintro u v hmove ⟨haccount, h⟩
  exact ⟨accounted_move hmove haccount, delivering_move henv hmove haccount h⟩

theorem executePlan_eq :
    (executePlan cfg w plan handle prefetched).1 =
      if bodyChunks cfg plan.body = [] then
        (w.setPhase .done).send (.sendResponseHeaders (responseHeaders plan) true)
      else
        (w.setPhase (.streaming (initialStreaming handle (bodyChunks cfg plan.body)
          (usablePrefetch plan.body prefetched)))).send
          (.sendResponseHeaders (responseHeaders plan) false) := by
  rw [executePlan]
  split
  · next hbody => simp [hbody, bodyChunks]
  · rw [beginStreaming]
    by_cases hchunks : bodyChunks cfg plan.body = []
    · simp [hchunks]
    · simp [hchunks]

/-- A response that is complete with its first call. -/
theorem delivering_done (hfresh : Fresh w) {call : Call} (hcall : call.dataSend = none) :
    Accounted cfg ((w.setPhase .done).record call) ∧
      Delivering owes chunks ((w.setPhase .done).record call) := by
  have hwork : (w.setPhase .done).work = 0 :=
    work_eq_zero_iff.mpr ⟨hfresh.pending, hfresh.events, hfresh.batch⟩
  constructor
  · refine ⟨fun _ => hfresh.bridge, fun _ => ?_, fun _ => hfresh.batch, nofun⟩
    rw [work_record, hwork]
    exact Multiset.notMem_zero _
  · refine ⟨?_, nofun⟩
    have hsends : dataSends ((w.setPhase .done).record call).trace = [] :=
      (dataSends_other _ hcall).trans hfresh.sends
    rw [hsends]
    exact .headersOnly

/-- The first call of `execute_plan` starts the delivery of the plan's chunks. -/
theorem executePlan_start (hfresh : Fresh w) (hinline : ∀ bytes, owes (.inline bytes) bytes)
    (hprefetch : owes (.file 0 (usablePrefetch plan.body prefetched).length)
      (usablePrefetch plan.body prefetched)) :
    ∃ phase call, (executePlan cfg w plan handle prefetched).1 = (w.setPhase phase).send call ∧
      Accounted cfg ((w.setPhase phase).record call) ∧
      Delivering owes (bodyChunks cfg plan.body) ((w.setPhase phase).record call) ∧
      ∀ st, phase = .streaming st → st.handle = handle := by
  rw [executePlan_eq]
  split
  · have hheaders : (Call.sendResponseHeaders (responseHeaders plan) true).dataSend = none := rfl
    obtain ⟨haccount, hdelivering⟩ : Accounted cfg _ ∧ _ := delivering_done hfresh hheaders
    exact ⟨.done, _, rfl, haccount, hdelivering, nofun⟩
  · refine ⟨_, _, rfl, ?_, ⟨?_, fun st hst => ?_⟩, ?_⟩
    · have hwork (phase : Phase) : (w.setPhase phase).work = 0 :=
        work_eq_zero_iff.mpr ⟨hfresh.pending, hfresh.events, hfresh.batch⟩
      refine ⟨fun _ => hfresh.bridge, fun _ => ?_, fun _ => hfresh.batch, ?_⟩
      · rw [work_record, hwork]
        exact ⟨Multiset.notMem_zero _, rfl⟩
      · rintro st hst
        cases hst
        exact Nat.zero_le _
    · have hsent : List.Forall₂ owes ((bodyChunks cfg plan.body).take 0) [] := by
        rw [List.take_zero]
        exact .nil
      have hsends (phase : Phase) : dataSends ((w.setPhase phase).record
          (.sendResponseHeaders (responseHeaders plan) false)).trace = [] :=
        (dataSends_other _ rfl).trans hfresh.sends
      rw [hsends]
      show SentAs owes _ (.streaming _) (pumped [])
      exact .streaming rfl hsent
    · cases hst
      refine ⟨fun _ _ _ _ hop => ?_, fun _ _ hevent => ?_,
        fun seq data hlookup _ => ?_⟩
      · have hpending : _ ∈ w.pending := hop
        rw [hfresh.pending] at hpending
        cases hpending
      · have hevents : _ ∈ w.bridge.events ++ w.batch := hevent
        rw [hfresh.events, hfresh.batch] at hevents
        cases hevents
      · rcases lookup_seedPrefetch hlookup with hchunk | ⟨rfl, rfl, hchunk⟩
        · exact ⟨_, hchunk, hinline data⟩
        · exact ⟨_, hchunk, hprefetch⟩
    · rintro st ⟨⟩
      rfl

/-- `execute_plan` starts the delivery of the plan's chunks. -/
theorem delivering_executePlan (henv : env.Supplies owes) (hfresh : Fresh w)
    (hinline : ∀ bytes, owes (.inline bytes) bytes)
    (hprefetch : owes (.file 0 (usablePrefetch plan.body prefetched).length)
      (usablePrefetch plan.body prefetched)) :
    let s := (executePlan cfg w plan handle prefetched).1
    Accounted cfg s ∧ Delivering owes (bodyChunks cfg plan.body) s ∧
      s.batch = [] := by
  obtain ⟨phase, call, heq, haccount, hdelivering, -⟩ :=
    @executePlan_start cfg w owes plan handle prefetched hfresh hinline hprefetch
  -- The hooks that fire inside the send are moves.
  have hmoves : Moves Crates.plain cfg env _ _ := send_moves (w.setPhase phase) call
  obtain ⟨haccount', hdelivering'⟩ := delivering_moves henv hmoves haccount hdelivering
  dsimp only
  rw [heq]
  exact ⟨haccount', hdelivering', (send_batch _ _).trans hfresh.batch⟩

/-- The invariant of the body along a run from `begin_streaming` on. -/
theorem delivering_run (henv : env.Supplies owes) (hfresh : Fresh w)
    (hinline : ∀ bytes, owes (.inline bytes) bytes)
    (hprefetch : owes (.file 0 (usablePrefetch plan.body prefetched).length)
      (usablePrefetch plan.body prefetched))
    (hrun : StreamRun crates cfg env
      (executePlan cfg w plan handle prefetched).1 actions s) :
    SentAs owes (bodyChunks cfg plan.body) s.phase (dataSends s.trace) := by
  obtain ⟨haccount, hdelivering, hbatch⟩ :=
    delivering_executePlan henv hfresh hinline hprefetch
  have hinvariant := run_invariant
    (I := fun s => Accounted cfg s ∧ Delivering owes (bodyChunks cfg plan.body) s)
    (fun u v hmove h => ⟨accounted_move hmove h.1,
      delivering_move henv hmove h.1 h.2⟩) hbatch ⟨haccount, hdelivering⟩ hrun
  exact hinvariant.1.2.sent

end Runs

/-! ## Exact reads -/

/-- The environment whose reads return exactly the requested bytes of the
file. -/
def exactReads (content : Bytes) : Env where
  requests _ := True
  completes _ op completion :=
    match op with
    | .read _ offset len _ =>
        completion = .read (.ok (fileSlice content offset len))
    | _ => True

theorem exactReads_supplies (content : Bytes) :
    (exactReads content).Supplies fun chunk data => data = chunk.bytes content := by
  intro s st handle offset len seq data _ _ hok
  cases hok
  rfl

theorem flatten_of_owed {content : Bytes} {chunks : List Chunk}
    {datas : List Bytes}
    (h : List.Forall₂ (fun chunk data => data = chunk.bytes content) chunks datas) :
    datas.flatten = chunks.flatMap (Chunk.bytes content) := by
  induction h with
  | nil => rfl
  | cons hdata _ ih => rw [List.flatten_cons, List.flatMap_cons, hdata, ih]

/-- The data sent is at every moment a part of `data` from its start on, and all of it when
`pump` ends the stream. -/
structure Sends (data : Bytes) (trace : List Call) : Prop where
  part : sentBytes trace <+: data
  whole : ∀ before last after,
    trace = before ++ .sendResponseData .pump last true :: after →
      sentBytes (before ++ [.sendResponseData .pump last true]) = data

/-- What has been sent of the chunks of a file is what they hold. -/
theorem SentAs.sends {content : Bytes} {chunks : List Chunk} {phase : Phase}
    {trace : List Call}
    (h : SentAs (fun chunk data => data = chunk.bytes content) chunks phase
      (dataSends trace)) : Sends (chunks.flatMap (Chunk.bytes content)) trace where
  part := by
    obtain ⟨count, datas, howed, hflat⟩ := h.sent
    have hall : sentBytes trace = (chunks.take count).flatMap (Chunk.bytes content) :=
      hflat.trans (flatten_of_owed howed)
    rw [hall]
    refine ⟨(chunks.drop count).flatMap (Chunk.bytes content), ?_⟩
    rw [← List.flatMap_append, List.take_append_drop]
  whole := by
    rintro before last after rfl
    rw [dataSends_append] at h
    obtain ⟨datas, hbefore, howed⟩ := SentAs.ended h
    rw [← flatten_of_owed howed]
    rw [sentBytes]
    rw [dataSends_append, hbefore, List.flatMap_append, pumped_flatMap, List.flatten_append]
    rfl

/-- A plan for a file of `content` plans the whole of it or ranges in it. -/
theorem plannedBody_eq {crates : Crates} {cfg : Config} {facts : RequestFacts}
    {fileMeta : FileMeta} {plan : ResponsePlan} {content : Bytes}
    (hplan : planResponse crates facts fileMeta = some plan)
    (hsize : fileMeta.size = content.length) (hchunk : 1 ≤ cfg.chunkSize) :
    (bodyChunks cfg plan.body).flatMap (Chunk.bytes content) =
      plannedBody content plan.body := by
  apply bodyChunks_bytes hchunk
  intro len hbody
  cases planResponse_body hplan with
  | empty hempty => cases hbody.symm.trans hempty
  | whole hfull _ => cases hbody.symm.trans hfull; exact hsize
  | single _ hsegments _ => cases hbody.symm.trans hsegments
  | multi _ _ hmultipart _ => cases hbody.symm.trans hmultipart

/-- A prefetch owes chunk 0 what it holds. -/
theorem usablePrefetch_eq {content prefetched : Bytes} (body : BodyPlan)
    (hprefetch : prefetched <+: content) :
    usablePrefetch body prefetched =
      fileSlice content 0 (usablePrefetch body prefetched).length := by
  simp only [usablePrefetch, fileSlice]
  split
  · rw [List.drop_zero]
    exact List.prefix_iff_eq_take.mp hprefetch
  · rfl

/-- Whatever the order and grouping of the completions, the wakeups and the
watermark hooks are, the data sent is a prefix of the planned body at every
moment, and all of it when `pump` ends the stream. -/
theorem streaming_integrity {crates : Crates} {cfg : Config}
    {facts : RequestFacts} {fileMeta : FileMeta} {plan : ResponsePlan}
    {content prefetched : Bytes} {handle : FileHandle} {w s : State}
    {actions : List Action}
    (hplan : planResponse crates facts fileMeta = some plan)
    (hsize : fileMeta.size = content.length) (hchunk : 1 ≤ cfg.chunkSize)
    (hprefetch : prefetched <+: content) (hfresh : Fresh w)
    (hrun : StreamRun crates cfg (exactReads content)
      (executePlan cfg w plan handle prefetched).1 actions s) :
    (∀ before after, s.trace = before ++ after →
        sentBytes before <+: plannedBody content plan.body) ∧
      ∀ before data after,
        s.trace = before ++ .sendResponseData .pump data true :: after →
          sentBytes (before ++ [.sendResponseData .pump data true]) =
            plannedBody content plan.body := by
  have hsent := delivering_run (exactReads_supplies content) hfresh
    (fun _ => rfl) (usablePrefetch_eq plan.body hprefetch) hrun
  obtain ⟨hpart, hwhole⟩ := hsent.sends
  rw [plannedBody_eq hplan hsize hchunk] at hpart hwhole
  refine ⟨?_, hwhole⟩
  intro before after htrace
  have hbefore : sentBytes before <+: sentBytes s.trace := by
    rw [htrace]
    simp only [sentBytes]
    rw [dataSends_append, List.flatMap_append]
    exact List.prefix_append _ _
  exact hbefore.trans hpart

/-! ### A body of two chunks -/

/-- A `GET` without conditions or ranges, with validators switched off. -/
def plainFacts : RequestFacts where
  methodHead := false
  conditionals := ⟨none, none, none, none, none⟩
  rangeHeader := none
  contentType := "text/plain"
  etagEnabled := false
  lastModifiedEnabled := false
  rangePolicy := ⟨true, 50⟩
  boundary := "envoyfilesboundary"
  contentEncoding := none
  addVary := false
  cacheControl := none

/-- The plan of `plainFacts` for a file of `size` bytes. -/
def wholePlan (size : ℕ) : ResponsePlan where
  status := 200
  headers := [("content-type", "text/plain"), ("accept-ranges", "bytes"),
    ("content-length", toString size)]
  body := .whole size

theorem planResponse_plainFacts (size : ℕ) :
    planResponse Crates.plain plainFacts ⟨size, 0, 0, false⟩ =
      some (wholePlan size) := rfl

/-- A stream whose waker is set and on which nothing has happened. -/
def servingState : State :=
  { State.initial with waker := true }

theorem fresh_servingState : Fresh servingState :=
  ⟨rfl, rfl, nofun, rfl, rfl, rfl⟩

/-- The configuration of the runs below: chunks of two bytes. -/
def twoByteChunks : Config :=
  { Config.defaults ⟨"/srv"⟩ with chunkSize := 2 }

/-- The reads complete in reverse order, with a pause in between. -/
theorem streaming_integrity_reversed :
    ∃ s : State,
      dataSends s.trace = [(.pump, [1, 2], false), (.pump, [3], true)] ∧
      (∀ before after, s.trace = before ++ after →
        sentBytes before <+: plannedBody [1, 2, 3] (.whole 3)) ∧
      ∀ before data after,
        s.trace = before ++ .sendResponseData .pump data true :: after →
          sentBytes (before ++ [.sendResponseData .pump data true]) =
            plannedBody [1, 2, 3] (.whole 3) := by
  have hrun : ∃ s, StreamRun Crates.plain twoByteChunks (exactReads [1, 2, 3])
      (executePlan twoByteChunks servingState (wholePlan 3) ⟨1⟩ []).1
      [.scheduled [], .complete 1 (.read (.ok [3])), .commit, .scheduled [],
        .hook .above, .complete 0 (.read (.ok [1, 2])), .scheduled [],
        .hook .below, .scheduled [[.above, .below]]] s ∧
      dataSends s.trace = [(.pump, [1, 2], false), (.pump, [3], true)] := by
    refine ⟨_, .cons trivial rfl (.cons ?_ rfl (.cons trivial rfl (.cons trivial rfl
      (.cons trivial rfl (.cons ?_ rfl (.cons trivial rfl (.cons trivial rfl
        (.cons trivial rfl (.nil _))))))))), rfl⟩
    · intro op hop
      have hread : Op.read ⟨1⟩ 2 1 1 = op := Option.some.inj hop
      rw [← hread]
      exact Eq.refl (Completion.read (.ok [3]))
    · intro op hop
      have hread : Op.read ⟨1⟩ 0 2 0 = op := Option.some.inj hop
      rw [← hread]
      exact Eq.refl (Completion.read (.ok [1, 2]))
  obtain ⟨s, hrun, hsends⟩ := hrun
  exact ⟨s, hsends, streaming_integrity (planResponse_plainFacts 3) rfl
    (by decide) (List.nil_prefix) fresh_servingState hrun⟩

end EnvoyFiles.Filter
