import EnvoyFiles.Filter.HeldHandles
import EnvoyFiles.Filter.InertHandles
import EnvoyFiles.Filter.Walk

/-!
# Responses that are not cut short

Only a read that fails cuts a response short.  Where the reads of the file that opens do not
fail, or its handle is inert and none are made, a response that has ended has been sent
whole.
-/

namespace EnvoyFiles.Filter

/-- `handle_read` has ended the response. -/
def Truncated (trace : List Call) : Prop :=
  ∃ data endStream, (.handleRead, data, endStream) ∈ dataSends trace

/-! ## The end of a response -/

section Ended

variable {crates : Crates} {cfg : Config} {env : Env} {store : Store}
  {headers : List (Bytes × Bytes)} {s : State} {actions : List Action} {call : Call}
  {calls : List Call} {stage stage' : Stage} {sent : Bytes}

/-- A body that ends is ended by data. -/
theorem stageRun_body_ended (h : StageRun stage calls stage') (hstage : stage = .body)
    (hended : stage' = .ended) :
    ∃ before caller data after, calls = before ++ .sendResponseData caller data true :: after := by
  induction h with
  | nil =>
      rw [hstage] at hended
      cases hended
  | @cons stage next last call calls _ hnext _ ih =>
      subst hstage
      have hgoesOn (hbody : next = .body) :
          ∃ before caller data after,
            call :: calls = before ++ .sendResponseData caller data true :: after := by
        obtain ⟨before, caller, data, after, rfl⟩ := ih hbody hended
        exact ⟨call :: before, caller, data, after, rfl⟩
      cases call with
      | sendResponseData caller data endStream =>
          cases endStream with
          | true => exact ⟨[], caller, data, calls, rfl⟩
          | false => exact hgoesOn (Option.some.inj hnext).symm
      | hook hook => exact hgoesOn (Option.some.inj hnext).symm
      | read handle offset len seq => exact hgoesOn (Option.some.inj hnext).symm
      | sendResponse status headers body => cases hnext
      | sendResponseHeaders headers endStream => cases hnext
      | openStat request => cases hnext
      | readDir path => cases hnext

/-- A response that has ended has started. -/
theorem Obeys.answered (h : Obeys s) (hdone : s.phase = .done) : ∃ call, s.answer = some call := by
  cases hanswer : s.answer with
  | some call => exact ⟨call, rfl⟩
  | none =>
      have hstarts : ∀ call ∈ s.trace, call.startsResponse = false := by
        intro call hcall
        simpa using List.find?_eq_none.mp hanswer call hcall
      have hwaiting := stageRun_unanswered h hstarts rfl
      rw [hdone] at hwaiting
      cases hwaiting

/-- A response without a body plans no data. -/
theorem Replies.nothing (hchunk : 1 ≤ cfg.chunkSize)
    (h : Replies crates cfg store headers ⟨call, sent⟩) (hends : call.endsStream = true) :
    sent = [] := by
  cases h with
  | refused _ _ => rfl
  | @found data query outcome _ _ hfinds hresponse =>
      cases outcome with
      | reply status replyHeaders =>
          cases hresponse
          rfl
      | page entries =>
          obtain ⟨html, -, hcall⟩ := Option.map_eq_some_iff.mp hresponse
          cases hcall
          rfl
      | file opened ctx =>
          obtain ⟨plan, hplan, hcall⟩ := Option.map_eq_some_iff.mp hresponse
          cases hcall
          obtain ⟨n, hwalk⟩ := hfinds
          have hsize : (fileMeta opened.stat).size = opened.content.length :=
            opened.size_eq (walk_file hwalk)
          rw [← plannedBody_eq hplan hsize hchunk, List.isEmpty_iff.mp hends]
          rfl

/-- A response that has ended without being cut short has been sent whole. -/
theorem sends_all (hchunk : 1 ≤ cfg.chunkSize) (hobeys : Obeys s) (hdone : s.phase = .done)
    (hanswer : s.answer = some call) (hwhole : ¬Truncated s.trace)
    (hreplies : Replies crates cfg store headers ⟨call, sent⟩) (hsends : Sends sent s.trace) :
    sentBytes s.trace = sent := by
  by_cases hends : call.endsStream = true
  · have hpart := hsends.part
    rw [hreplies.nothing hchunk hends] at hpart ⊢
    exact List.prefix_nil.mp hpart
  · obtain ⟨hstarts, before, after, htrace, -⟩ := List.find?_eq_some_iff_append.mp hanswer
    rw [Obeys] at hobeys
    rw [htrace, hdone] at hobeys
    obtain ⟨u, v, -, -, hnext, hafter⟩ := hobeys.split_middle
    have hbody : v = .body := by
      cases call with
      | sendResponseHeaders replyHeaders endStream =>
          cases endStream with
          | true => exact absurd rfl hends
          | false => cases u <;> cases hnext; rfl
      | sendResponse status replyHeaders body => exact absurd rfl hends
      | _ => cases hstarts
    obtain ⟨chunks, caller, data, rest, rfl⟩ := stageRun_body_ended hafter hbody rfl
    cases caller with
    | handleRead =>
        refine absurd ⟨data, true, ?_⟩ hwhole
        refine List.mem_filterMap.mpr ⟨.sendResponseData .handleRead data true, ?_, rfl⟩
        rw [htrace]
        simp
    | pump =>
        have hsplit : s.trace =
            (before ++ call :: chunks) ++ .sendResponseData .pump data true :: rest := by
          rw [htrace, List.append_assoc]
          rfl
        have hbytes : sentBytes s.trace = sent ++ sentBytes rest := by
          rw [← hsends.whole _ _ _ hsplit, hsplit, List.append_cons _ _ rest]
          simp only [sentBytes]
          rw [dataSends_append, List.flatMap_append]
        refine hsends.part.eq_of_length_le ?_
        rw [hbytes, List.length_append]
        exact Nat.le_add_right _ _

end Ended

/-! ## Reads that do not fail -/

/-- The environment opens regular files with this handle only, and no read of it fails. -/
structure Env.Steady (env : Env) (handle : FileHandle) : Prop where
  file : ∀ w op completion event opened, env.completes w op completion →
    op.onDone completion = some event → event.file = some opened → opened = handle
  reads : ∀ w offset len seq error,
    ¬env.completes w (.read handle offset len seq) (.read (.error error))

/-- No read has failed. -/
structure Faultless (s : State) : Prop where
  events : ∀ event ∈ s.bridge.events ++ s.batch, ∀ seq error, event ≠ .read seq (.error error)
  whole : ¬Truncated s.trace

section Steady

variable {crates : Crates} {cfg : Config} {env : Env} {s t : State} {action : Action}
  {actions : List Action} {handle : FileHandle}

theorem faultless_initial : Faultless State.initial := by
  refine ⟨fun _ hevent => absurd hevent List.not_mem_nil, ?_⟩
  rintro ⟨data, endStream, hsend⟩
  exact absurd hsend List.not_mem_nil

/-- Only a call of `handle_read` cuts a response short. -/
theorem Faultless.record (h : Faultless s) {call : Call}
    (hcall : ∀ data endStream, call.dataSend ≠ some (.handleRead, data, endStream))
    (htrace : t.trace = s.trace ++ [call])
    (hevents : ∀ event ∈ t.bridge.events ++ t.batch, event ∈ s.bridge.events ++ s.batch) :
    Faultless t where
  events event hevent := h.events event (hevents event hevent)
  whole := by
    rintro ⟨data, endStream, hmem⟩
    rw [htrace, dataSends_append] at hmem
    rcases List.mem_append.mp hmem with hearlier | hlast
    · exact h.whole ⟨data, endStream, hearlier⟩
    · obtain ⟨other, hother, hsend⟩ := List.mem_filterMap.mp hlast
      rw [List.mem_singleton.mp hother] at hsend
      exact hcall data endStream hsend

theorem Faultless.silent (h : Faultless s) (htrace : t.trace = s.trace)
    (hevents : ∀ event ∈ t.bridge.events ++ t.batch, event ∈ s.bridge.events ++ s.batch) :
    Faultless t where
  events event hevent := h.events event (hevents event hevent)
  whole := htrace ▸ h.whole

/-- A callback cuts no response short where no read has failed. -/
theorem silent_faultless (hmove : Move crates cfg Env.silent s t) (h : Faultless s) :
    Faultless t := by
  have hrest {event : IoEvent} {rest : List IoEvent} (hbatch : s.batch = event :: rest) :
      ∀ other ∈ s.bridge.events ++ rest, other ∈ s.bridge.events ++ s.batch :=
    fun other hother => mem_events_of_rest hbatch hother
  cases hmove with
  | reentry reentry => exact h.silent rfl fun _ hevent => hevent
  | hook hook =>
      obtain ⟨depth, commits, -, heq⟩ := onHook_eq s hook
      rw [heq]
      exact h.record (by simp [Call.dataSend]) rfl fun _ hevent => hevent
  | refuse _ _ _ => exact h.record (by simp [Call.dataSend]) rfl fun _ hevent => hevent
  | accept _ _ _ => exact h.record (by simp [Call.dataSend]) rfl fun _ hevent => hevent
  | complete _ hok _ => exact hok.elim
  | commit _ => exact h.silent rfl fun _ hevent => hevent
  | drain hbatch _ => exact h.silent rfl fun _ hevent => List.mem_append_left _ hevent
  | openNext hbatch _ _ _ => exact h.record (by simp [Call.dataSend]) rfl (hrest hbatch)
  | readDir _ hbatch _ => exact h.record (by simp [Call.dataSend]) rfl (hrest hbatch)
  | respond _ _ _ hbatch _ => exact h.record (by simp [Call.dataSend]) rfl (hrest hbatch)
  | sendHeaders _ hbatch _ => exact h.record (by simp [Call.dataSend]) rfl (hrest hbatch)
  | beginStreaming hbatch _ _ _ _ =>
      exact h.record (by simp [Call.dataSend]) rfl (hrest hbatch)
  | readOk hbatch _ => exact h.silent rfl (hrest hbatch)
  | @readError seq error rest st hbatch _ =>
      have hmem : .read seq (.error error) ∈ s.bridge.events ++ s.batch := by
        rw [hbatch]
        exact List.mem_append_cons_self
      exact absurd rfl (h.events _ hmem seq error)
  | ignore hbatch _ _ => exact h.silent rfl (hrest hbatch)
  | discard _ =>
      refine h.silent rfl fun event hevent => ?_
      exact List.mem_append_left _ (by simpa using hevent)
  | flushMore _ _ _ _ => exact h.record (by simp [Call.dataSend]) rfl fun _ hevent => hevent
  | flushLast _ _ _ _ => exact h.record (by simp [Call.dataSend]) rfl fun _ hevent => hevent
  | issueSkip _ _ _ _ => exact h.silent rfl fun _ hevent => hevent
  | issueRead _ _ _ _ => exact h.record (by simp [Call.dataSend]) rfl fun _ hevent => hevent
  | streamComplete _ =>
      exact h.silent rfl fun _ hevent => List.mem_append_right _ hevent

/-- What a stream on its own keeps, where the file it reads does not fail. -/
structure Steadily (handle : FileHandle) (s : State) : Prop where
  file : Unopened s ∨ ReadsFrom handle s
  faultless : Faultless s

/-- Nor does a completion. -/
theorem Steadily.complete (h : Steadily handle s) (henv : env.Steady handle)
    (halone : OpensAlone s) (hbatch : s.batch = []) {before after : List Op} {op : Op}
    {completion : Completion} {event : IoEvent} (hpending : s.pending = before ++ op :: after)
    (hok : env.completes s op completion) (hevent : op.onDone completion = some event) :
    Steadily handle (deliver { s with pending := before ++ after } event) := by
  have hop : op ∈ s.pending := by
    rw [hpending]
    exact List.mem_append_cons_self
  refine ⟨?_, ?_, ?_⟩
  · rcases h.file with hunopened | hreads
    · cases hfile : event.file with
      | none => exact Or.inl (hunopened.complete hpending hevent hfile)
      | some opened =>
          cases henv.file s op completion event opened hok hevent hfile
          exact Or.inr (halone.opens hbatch hpending hevent hfile)
    · exact Or.inr (hreads.complete hpending hevent)
  · intro other hother
    rcases deliver_events _ _ hother with rfl | hearlier
    · rintro seq error rfl
      obtain ⟨held, offset, len, rfl, rfl⟩ := onDone_read hevent
      rcases h.file with hunopened | hreads
      · cases hunopened.pending _ hop
      · rw [hreads.reads held offset len seq hop] at hok
        exact henv.reads s offset len seq error hok
    · exact h.faultless.events other hearlier
  · rw [deliver_trace]
    exact h.faultless.whole

/-- In such an environment no response is cut short. -/
theorem run_steadily (henv : env.Steady handle)
    (hrun : StreamRun crates cfg env State.initial actions s) : Steadily handle s := by
  have hinvariant : (Accounted cfg s ∧ OpensAlone s ∧ s.batch = []) ∧ Steadily handle s := by
    refine hrun.invariant (I := fun s => (Accounted cfg s ∧ OpensAlone s ∧ s.batch = []) ∧
      Steadily handle s) ?_ ?_
    · exact ⟨⟨accounted_initial cfg, opensAlone_initial, rfl⟩, Or.inl unopened_initial,
        faultless_initial⟩
    · rintro u action v ⟨⟨haccount, halone, hbatch⟩, hsteady⟩ hok hstep
      obtain ⟨hmoves, hbatch'⟩ := step_moves hbatch hok hstep
      obtain ⟨haccount', halone'⟩ := Transition.closure_invariant
        (I := fun s => Accounted cfg s ∧ OpensAlone s) hmoves
        (fun _ _ hmove h => ⟨accounted_move hmove h.1, opensAlone_move hmove h.1 h.2⟩)
        ⟨haccount, halone⟩
      refine ⟨⟨haccount', halone', hbatch'⟩, ?_⟩
      by_cases hcallback : action.isCallback = true
      · refine callback_invariant (I := Steadily handle) ?_ hcallback hbatch hstep hsteady
        rintro x y hmove ⟨hfile, hfaultless⟩
        exact ⟨hfile.imp (silent_unopened hmove) (silent_readsFrom hmove),
          silent_faultless hmove hfaultless⟩
      · cases action with
        | complete index completion =>
            obtain ⟨before, op, after, event, hsplit, hop, hevent, rfl⟩ := completeOp_cases hstep
            exact hsteady.complete henv halone hbatch hsplit (hok op hop) hevent
        | _ => exact absurd rfl hcallback
  exact hinvariant.2

end Steady

/-! ## Inert handles -/

section Inert

variable {crates : Crates} {cfg : Config} {headers : List (Bytes × Bytes)} {stat : FileStat}
  {content planned : Bytes} {s : State} {actions : List Action}

/-- A response that waits has not been cut short. -/
theorem unanswered_whole (hobeys : Obeys s) (hnone : s.answer = none) : ¬Truncated s.trace := by
  have hstarts : ∀ call ∈ s.trace, call.startsResponse = false := by
    intro call hcall
    simpa using List.find?_eq_none.mp hnone call hcall
  rw [Obeys] at hobeys
  rw [stageRun_unanswered hobeys hstarts rfl] at hobeys
  rintro ⟨data, endStream, hmem⟩
  rw [dataSends_of_waiting hobeys] at hmem
  cases hmem

theorem Unread.whole (h : Unread planned s) : ¬Truncated s.trace := by
  rintro ⟨data, endStream, hmem⟩
  have hbody := h.body
  generalize dataSends s.trace = sends at hbody hmem
  generalize s.phase = phase at hbody
  cases hbody with
  | ready _ _ _ => cases hmem
  | sent => cases List.mem_singleton.mp hmem
  | nothing _ => cases hmem

/-- A file that comes back with an inert handle is not read, so nothing is cut short. -/
theorem inert_whole
    (hrun : StreamRun crates cfg (inertOpens headers stat content) State.initial actions s) :
    ¬Truncated s.trace := by
  have hobeys : Obeys s := run_obeys hrun
  cases lookup_rule inert_lookupRule hrun with
  | idle hunasked => exact unanswered_whole hobeys hunasked.unanswered
  | seeking hawaiting _ => exact unanswered_whole hobeys hawaiting.unanswered
  | gone _ hnone => exact unanswered_whole hobeys hnone
  | @answered w reaction call hfresh hgood hreaction hmoves hanswer =>
      obtain ⟨hstarts, htrace⟩ := @apply_trace cfg w reaction call hreaction
      have hunread := submittedReads_before hobeys hstarts (htrace.trans (moves_trace hmoves))
      have hclosure {planned : Bytes} (hstart : Unread planned (reaction.apply cfg w).1) :
          Unread planned s :=
        Transition.closure_invariant hmoves (fun _ _ => unread_move) hstart
      cases reaction with
      | reply status replyHeaders body =>
          have hstart : Unread [] ((w.setPhase .done).record
              (.sendResponse status replyHeaders body)) := by
            refine ⟨?_, ?_, ?_⟩
            · exact (submittedReads_other _ rfl).trans hunread
            · exact work_eq_zero_iff.mpr ⟨hfresh.pending, hfresh.events, hfresh.batch⟩
            · show AtHand [] .done (dataSends (w.trace ++ [_]))
              rw [dataSends_other _ rfl, hfresh.sends]
              exact .nothing rfl
          exact (hclosure hstart.send).whole
      | serve plan handle prefetched =>
          obtain ⟨rfl, hchunk, -⟩ := hgood plan handle prefetched rfl
          exact (hclosure (unread_executePlan hfresh hunread hchunk)).whole
      | seek phase path ctx => cases hreaction
      | list path => cases hreaction
      | ignore => cases hreaction

end Inert

end EnvoyFiles.Filter
