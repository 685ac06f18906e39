import EnvoyFiles.Filter.HeldHandles
import EnvoyFiles.Filter.Progress

/-!
# What a callback submits

A callback submits its reads last, and through the handle that it goes on to stream from.
Everything before the issue loop of `pump` submits no read, which is what its moves say once
the window for reads is taken to be empty.  At any time a stream waits for one open or for
as many reads as its window lets through.
-/

namespace EnvoyFiles

/-- The configuration with no window for reads. -/
def Config.unread (cfg : Config) : Config :=
  { cfg with maxInflightReads := 0 }

namespace Filter

section Submissions

variable {crates : Crates} {cfg : Config} {s t u : State} {action : Action}

/-- Operations other than reads have been submitted. -/
def Submits (s t : State) : Prop :=
  ∃ ops, t.pending = s.pending ++ ops ∧ ∀ op ∈ ops, op.isRead = false

theorem Submits.of_eq (h : t.pending = s.pending) : Submits s t :=
  ⟨[], h.trans (List.append_nil _).symm, fun _ hop => absurd hop List.not_mem_nil⟩

theorem Submits.of_submit {op : Op} (h : t.pending = s.pending ++ [op])
    (hop : op.isRead = false) : Submits s t := by
  refine ⟨[op], h, fun other hother => ?_⟩
  rw [List.mem_singleton.mp hother]
  exact hop

theorem Submits.trans (hst : Submits s t) (htu : Submits t u) : Submits s u := by
  obtain ⟨first, hfirst, hfirstReads⟩ := hst
  obtain ⟨second, hsecond, hsecondReads⟩ := htu
  refine ⟨first ++ second, ?_, fun op hop => ?_⟩
  · rw [hsecond, hfirst, List.append_assoc]
  · rcases List.mem_append.mp hop with hop | hop
    · exact hfirstReads op hop
    · exact hsecondReads op hop

/-- Without a window no move of a callback submits a read. -/
theorem silent_submits (hmove : Move crates cfg.unread Env.silent s t) : Submits s t := by
  cases hmove with
  | complete _ hok _ => exact hok.elim
  | hook hook =>
      obtain ⟨depth, commits, -, heq⟩ := onHook_eq s hook
      rw [heq]
      exact .of_eq rfl
  | accept _ _ _ => exact .of_submit rfl rfl
  | openNext _ _ _ _ => exact .of_submit rfl rfl
  | readDir _ _ _ => exact .of_submit rfl rfl
  | issueRead _ hwindow _ _ => exact absurd hwindow (Nat.not_lt_zero _)
  | _ => exact .of_eq rfl

theorem moves_submit (hmoves : Moves crates cfg.unread Env.silent s t) : Submits s t :=
  Transition.closure_invariant (I := Submits s) hmoves
    (fun _ _ hmove hsubmits => hsubmits.trans (silent_submits hmove)) (.of_eq rfl)

/-- No handler looks at the window. -/
theorem handleEvent_unread (s : State) (event : IoEvent) :
    handleEvent crates cfg.unread s event = handleEvent crates cfg s event := by
  cases event <;> rfl

theorem handleBatch_unread (events : List IoEvent) (s : State) :
    handleBatch crates cfg.unread events s = handleBatch crates cfg events s := by
  induction events generalizing s with
  | nil => rfl
  | cons event rest ih =>
      rw [handleBatch, handleBatch, handleEvent_unread]
      simp only [ih]

/-- The issue loop submits reads through the handle of the phase. -/
theorem submitReads_pending (handle : FileHandle) (requests : List ReadRequest) (s : State) :
    ∃ ops, (submitReads handle requests s).pending = s.pending ++ ops ∧
      ∀ op ∈ ops, ∃ offset len seq, op = .read handle offset len seq := by
  rw [submitReads]
  induction requests generalizing s with
  | nil => exact ⟨[], (List.append_nil _).symm, fun _ hop => absurd hop List.not_mem_nil⟩
  | cons request requests ih =>
      obtain ⟨index, offset, len⟩ := request
      obtain ⟨ops, hops, hreads⟩ := ih
        (s.submit (.read handle offset len index) (.read handle offset len index))
      refine ⟨.read handle offset len index :: ops, ?_, fun op hop => ?_⟩
      · rw [List.foldl_cons, hops]
        exact List.append_assoc _ _ _
      · rcases List.mem_cons.mp hop with rfl | hop
        · exact ⟨offset, len, index, rfl⟩
        · exact hreads op hop

/-- What has been submitted, where the reads are those of the phase. -/
def SubmitsOwn (s t : State) : Prop :=
  ∃ ops, t.pending = s.pending ++ ops ∧
    ∀ handle offset len seq, .read handle offset len seq ∈ ops → t.phase.handle = some handle

theorem Submits.own (h : Submits s t) : SubmitsOwn s t := by
  obtain ⟨ops, hops, hreads⟩ := h
  refine ⟨ops, hops, fun handle offset len seq hop => ?_⟩
  cases hreads _ hop

theorem issueReads_own (h : issueReads cfg s = some t) : SubmitsOwn s t := by
  rw [issueReads] at h
  split at h
  · split at h
    · next st hphase =>
        cases h
        obtain ⟨ops, hops, hreads⟩ := submitReads_pending st.handle _ _
        refine ⟨ops, hops, fun handle offset len seq hop => ?_⟩
        obtain ⟨_, _, _, heq⟩ := hreads _ hop
        cases heq
        rw [submitReads_phase]
        rfl
    · cases h
      exact Submits.own (.of_eq rfl)
  · cases h

theorem Submits.thenOwn (hst : Submits s t) (htu : SubmitsOwn t u) : SubmitsOwn s u := by
  obtain ⟨first, hfirst, hreads⟩ := hst
  obtain ⟨second, hsecond, hown⟩ := htu
  refine ⟨first ++ second, ?_, fun handle offset len seq hop => ?_⟩
  · rw [hsecond, hfirst, List.append_assoc]
  · rcases List.mem_append.mp hop with hop | hop
    · cases hreads _ hop
    · exact hown handle offset len seq hop

theorem pump_own (h : pump cfg s = some t) : SubmitsOwn s t := by
  have hflush : Submits s (flush (flushFuel s) s).1 := by
    have hmoves : Moves Crates.plain cfg.unread Env.silent s (flush (flushFuel s) s).1 ∧ _ :=
      flush_moves (flushFuel s) s
    exact moves_submit hmoves.1
  rw [pump] at h
  split at h
  · next v hv =>
      rw [hv] at hflush
      exact hflush.thenOwn (issueReads_own h)
  · next v hv =>
      rw [hv] at hflush
      cases h
      exact hflush.own

/-- The reads that `on_scheduled` submits. -/
theorem onScheduled_own (hbatch : s.batch = []) (hcomplete : s.complete = false)
    (h : onScheduled crates cfg { s with commits := s.commits - 1 } = some t) :
    SubmitsOwn s t := by
  have hdrain : Move crates cfg.unread Env.silent s _ := Move.drain hbatch hcomplete
  rw [onScheduled] at h
  simp only [EventBridge.process_fst, EventBridge.process_snd] at h
  have hloop {u : State} {ended : Bool}
      (hu : handleBatch crates cfg s.bridge.events
        { s with bridge := .empty, batch := s.bridge.events,
                 commits := s.commits - 1 } = some (u, ended)) : Submits s u := by
    rw [← handleBatch_unread] at hu
    have hhandled : Handled crates cfg.unread Env.silent
        { s with bridge := .empty, batch := s.bridge.events, commits := s.commits - 1 }
        u [] ended :=
      handleBatch_handled rfl hu
    exact moves_submit (Relation.ReflTransGen.head hdrain hhandled.moves)
  split at h
  · cases h
  · next u hu =>
      cases h
      exact (hloop hu).own
  · next u hu =>
      split at h
      · exact (hloop hu).thenOwn (pump_own h)
      · cases h
        exact (hloop hu).own

/-- What a callback submits: its reads go through the handle of the phase that it leaves. -/
theorem callback_own (hcallback : action.isCallback = true) (hbatch : s.batch = [])
    (h : step crates cfg s action = some t) : SubmitsOwn s t := by
  by_cases hscheduled : ∃ reentry, action = .scheduled reentry
  · obtain ⟨reentry, rfl⟩ := hscheduled
    simp only [step] at h
    split at h
    · cases h
    · next hcomplete =>
        exact onScheduled_own (s := { s with reentry }) hbatch (by simpa using hcomplete) h
  · have hsame : step crates cfg.unread s action = some t := by
      rw [← h]
      cases action with
      | scheduled reentry => exact absurd ⟨reentry, rfl⟩ hscheduled
      | _ => rfl
    obtain ⟨hmoves, -⟩ := step_moves hbatch (silent_allows s hcallback) hsame
    exact (moves_submit hmoves).own

end Submissions

/-! ## How much is submitted -/

/-- The operations that a stream waits for are few, and those of a streaming one are in
flight, also behind the completion of the stream. -/
structure Loaded (cfg : Config) (s : State) : Prop where
  pending : s.pending.length ≤ max 1 cfg.maxInflightReads
  inflight : ∀ st, s.phase = .streaming st → s.pending.length ≤ st.inflight

section Loaded

variable {crates : Crates} {cfg : Config} {env : Env} {s t : State} {actions : List Action}

theorem pending_le_work (s : State) : s.pending.length ≤ s.work.card := by
  rw [State.work, Multiset.card_add, Multiset.card_add, Multiset.coe_card, List.length_map]
  omega

/-- An operation behind an open is the only one. -/
theorem Accounted.pending_nil (h : Accounted cfg s) {event : IoEvent} {rest : List IoEvent}
    (hbatch : s.batch = event :: rest) (hread : event.isRead = false) : s.pending = [] :=
  (work_eq_zero_iff.mp (h.opening hbatch hread).2).1

/-- Where callbacks can run, the accounts say what is in flight. -/
theorem Accounted.inflight (h : Accounted cfg s) (hactive : s.complete = false) {st : Streaming}
    (hphase : s.phase = .streaming st) : s.pending.length ≤ st.inflight := by
  have hbalanced := h.balanced hactive
  rw [hphase] at hbalanced
  exact (pending_le_work s).trans hbalanced.2.le

theorem loaded_initial (cfg : Config) : Loaded cfg State.initial :=
  ⟨Nat.zero_le _, fun st hst => by cases hst⟩

theorem length_rest {before after : List Op} {op : Op}
    (hpending : s.pending = before ++ op :: after) :
    (before ++ after).length ≤ s.pending.length := by
  rw [hpending, List.length_append, List.length_append, List.length_cons]
  omega

theorem loaded_pending (hmove : Move crates cfg env s t) (haccount : Accounted cfg s)
    (halone : OpensAlone s) (h : Loaded cfg s) :
    t.pending.length ≤ max 1 cfg.maxInflightReads := by
  have hone {op : Op} (hnone : s.pending = []) :
      (s.pending ++ [op]).length ≤ max 1 cfg.maxInflightReads := by
    rw [hnone]
    exact le_max_left _ _
  cases hmove with
  | hook hook =>
      obtain ⟨depth, commits, -, heq⟩ := onHook_eq s hook
      rw [heq]
      exact h.pending
  | accept hidle _ _ => exact hone (halone.idle hidle)
  | complete hpending _ _ =>
      rw [deliver_pending]
      exact (length_rest hpending).trans h.pending
  | openNext hbatch hread _ _ => exact hone (haccount.pending_nil hbatch hread)
  | readDir _ hbatch hread => exact hone (haccount.pending_nil hbatch hread)
  | @issueRead st offset len hphase hwindow _ _ =>
      have hinflight := h.inflight st hphase
      refine le_trans ?_ (le_max_right _ _)
      show (s.pending ++ [_]).length ≤ cfg.maxInflightReads
      rw [List.length_append, List.length_singleton]
      omega
  | _ => exact h.pending

/-- Behind the completion of the stream nothing is handled any more. -/
theorem loaded_gone (hmove : Move crates cfg env s t) (haccount : Accounted cfg s)
    (hcomplete : s.complete = true) (h : Loaded cfg s) {st : Streaming}
    (hst : t.phase = .streaming st) : t.pending.length ≤ st.inflight := by
  have hbatch := haccount.batch hcomplete
  have hnone {event : IoEvent} {rest : List IoEvent} (hcons : s.batch = event :: rest) : False := by
    rw [hbatch] at hcons
    cases hcons
  cases hmove with
  | hook hook =>
      obtain ⟨depth, commits, -, heq⟩ := onHook_eq s hook
      rw [heq] at hst ⊢
      cases hphase : s.phase with
      | streaming st' =>
          rw [hphase] at hst
          cases hst
          exact h.inflight st' hphase
      | _ =>
          rw [hphase] at hst
          cases hst
  | refuse _ _ _ => cases hst
  | accept _ _ _ => cases hst
  | complete hpending _ _ =>
      rw [deliver_phase] at hst
      rw [deliver_pending]
      exact (length_rest hpending).trans (h.inflight st hst)
  | openNext hcons _ _ _ => exact (hnone hcons).elim
  | readDir _ hcons _ => exact (hnone hcons).elim
  | respond _ _ _ hcons _ => exact (hnone hcons).elim
  | sendHeaders _ hcons _ => exact (hnone hcons).elim
  | beginStreaming hcons _ _ _ _ => exact (hnone hcons).elim
  | readOk hcons _ => exact (hnone hcons).elim
  | readError hcons _ => exact (hnone hcons).elim
  | ignore hcons _ _ => exact (hnone hcons).elim
  | @flushMore st' bytes hphase _ _ _ =>
      cases hst
      exact h.inflight st' hphase
  | flushLast _ _ _ _ => cases hst
  | @issueSkip st' chunk hphase _ _ _ =>
      cases hst
      exact h.inflight st' hphase
  | issueRead hphase _ _ _ =>
      cases hst
      show (s.pending ++ [_]).length ≤ _ + 1
      rw [List.length_append, List.length_singleton]
      exact Nat.succ_le_succ (h.inflight _ hphase)
  | _ => exact h.inflight st hst

theorem loaded_move (hmove : Move crates cfg env s t) (haccount : Accounted cfg s)
    (halone : OpensAlone s) (h : Loaded cfg s) : Loaded cfg t where
  pending := loaded_pending hmove haccount halone h
  inflight st hst := by
    cases hactive : t.complete with
    | false => exact (accounted_move hmove haccount).inflight hactive hst
    | true =>
        rcases move_complete hmove with hsame | rfl
        · exact loaded_gone hmove haccount (hsame.symm.trans hactive) h hst
        · exact h.inflight st hst

/-- In every run a stream waits for one operation, or for as many as its window has room
for. -/
theorem run_loaded (hrun : StreamRun crates cfg env State.initial actions s) :
    s.pending.length ≤ max 1 cfg.maxInflightReads := by
  have hinvariant := run_invariant
    (I := fun s => Accounted cfg s ∧ OpensAlone s ∧ Loaded cfg s)
    (fun u v hmove hu => ⟨accounted_move hmove hu.1, opensAlone_move hmove hu.1 hu.2.1,
      loaded_move hmove hu.1 hu.2.1 hu.2.2⟩)
    rfl ⟨accounted_initial cfg, opensAlone_initial, loaded_initial cfg⟩ hrun
  exact hinvariant.1.2.2.pending

end Loaded

end Filter

end EnvoyFiles
