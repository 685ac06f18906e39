import EnvoyFiles.Filter.Simulation

/-!
# What a stream still waits for

An operation keeps its ticket from its submission until the event loop takes
its event: it is pending at the engine, then in the bridge, then in the batch
of the running callback.  `State.work` collects the tickets, and `Accounted`
ties them to the phase: a resolving filter waits for exactly one open or
directory read, a streaming one for exactly its `inflight` reads.
-/

namespace EnvoyFiles.Filter

/-- What an operation and its event have in common. -/
inductive Ticket where
  | opening
  | read (seq : ℕ)
  deriving DecidableEq

def Op.ticket : Op → Ticket
  | .openStat _ _ => .opening
  | .read _ _ _ seq => .read seq
  | .readDir _ => .opening

def IoEvent.ticket : IoEvent → Ticket
  | .opened _ _ _ _ => .opening
  | .openError _ => .opening
  | .read seq _ => .read seq
  | .dir _ => .opening

theorem onDone_ticket {op : Op} {completion : Completion} {event : IoEvent}
    (h : op.onDone completion = some event) : event.ticket = op.ticket := by
  cases op with
  | openStat request ctx =>
      cases completion with
      | openStat result =>
          cases result with
          | ok opened => cases h; rfl
          | error error => cases h; rfl
      | _ => cases h
  | read handle offset len seq =>
      cases completion with
      | read result => cases h; rfl
      | _ => cases h
  | readDir path =>
      cases completion with
      | readDir result => cases h; rfl
      | _ => cases h

/-- A read event comes from a read. -/
theorem onDone_read {op : Op} {completion : Completion} {seq : ℕ}
    {result : ReadResult}
    (h : op.onDone completion = some (.read seq result)) :
    ∃ handle offset len,
      op = .read handle offset len seq ∧ completion = .read result := by
  cases op with
  | openStat request ctx =>
      cases completion with
      | openStat result =>
          cases result with
          | ok opened => cases h
          | error error => cases h
      | _ => cases h
  | read handle offset len seq =>
      cases completion with
      | read result => cases h; exact ⟨handle, offset, len, rfl, rfl⟩
      | _ => cases h
  | readDir path => cases completion <;> cases h

theorem ticket_of_not_isRead {event : IoEvent} (h : event.isRead = false) :
    event.ticket = .opening := by
  cases event with
  | read seq result => simp [IoEvent.isRead] at h
  | _ => rfl

/-- An element in the middle of a list is one of its multiset. -/
theorem coe_map_middle {α β : Type*} (f : α → β) (before after : List α)
    (a : α) :
    (↑((before ++ a :: after).map f) : Multiset β) =
      f a ::ₘ ↑((before ++ after).map f) := by
  rw [Multiset.cons_coe, Multiset.coe_eq_coe, List.map_append, List.map_append,
    List.map_cons]
  exact List.perm_middle

/-- The tickets of everything submitted and not yet handled. -/
def State.work (s : State) : Multiset Ticket :=
  ↑(s.pending.map Op.ticket) + ↑(s.bridge.events.map IoEvent.ticket) +
    ↑(s.batch.map IoEvent.ticket)

theorem ticket_pending {s : State} {op : Op} (h : op ∈ s.pending) : op.ticket ∈ s.work :=
  Multiset.mem_add.mpr (Or.inl (Multiset.mem_add.mpr (Or.inl (List.mem_map_of_mem h))))

theorem ticket_event {s : State} {event : IoEvent} (h : event ∈ s.bridge.events) :
    event.ticket ∈ s.work :=
  Multiset.mem_add.mpr (Or.inl (Multiset.mem_add.mpr (Or.inr (List.mem_map_of_mem h))))

theorem work_eq_zero_iff {s : State} :
    s.work = 0 ↔ s.pending = [] ∧ s.bridge.events = [] ∧ s.batch = [] := by
  simp [State.work, Multiset.coe_add, Multiset.coe_eq_zero]

/-! ## The work of a state -/

@[simp] theorem work_record (s : State) (call : Call) :
    (s.record call).work = s.work := rfl

@[simp] theorem work_setPhase (s : State) (phase : Phase) :
    (s.setPhase phase).work = s.work := rfl

@[simp] theorem work_submit (s : State) (op : Op) (call : Call) :
    (s.submit op call).work = op.ticket ::ₘ s.work := by
  simp only [State.work, State.submit, State.record, coe_map_middle,
    List.append_nil, Multiset.cons_add]

@[simp] theorem work_onHook (s : State) (hook : Hook) :
    (s.onHook hook).work = s.work := by
  obtain ⟨depth, commits, -, heq⟩ := onHook_eq s hook
  rw [heq]
  rfl

@[simp] theorem work_send (s : State) (call : Call) : (s.send call).work = s.work := by
  obtain ⟨depth, commits, -, heq⟩ := send_eq s call
  rw [heq]
  rfl

/-- Taking the head of the batch takes its ticket. -/
theorem work_cons {s : State} {event : IoEvent} {rest : List IoEvent}
    (hbatch : s.batch = event :: rest) :
    s.work = event.ticket ::ₘ { s with batch := rest }.work := by
  simp only [State.work, hbatch, List.map_cons, ← Multiset.cons_coe,
    Multiset.add_cons]

/-- A delivery queues the event in an open bridge and leaves a commit to come;
a closed bridge drops it. -/
theorem deliver_eq (s : State) (event : IoEvent) :
    ∃ bridge delivering,
      deliver s event = { s with bridge := bridge, delivering := delivering } ∧
        ((s.bridge ≠ .closed ∧ bridge ≠ .closed ∧
            bridge.events = s.bridge.events ++ [event] ∧
            delivering = s.delivering + 1) ∨
          (s.bridge = .closed ∧ bridge = .closed ∧
            delivering = s.delivering)) := by
  rw [deliver]
  cases s.bridge with
  | closed => exact ⟨.closed, s.delivering, rfl, Or.inr ⟨rfl, rfl, rfl⟩⟩
  | empty =>
      refine ⟨.single event, s.delivering + 1, rfl, Or.inl ?_⟩
      exact ⟨by simp, by simp, rfl, rfl⟩
  | single first =>
      refine ⟨.multiple [first, event], s.delivering + 1, rfl, Or.inl ?_⟩
      exact ⟨by simp, by simp, rfl, rfl⟩
  | multiple events =>
      refine ⟨.multiple (events ++ [event]), s.delivering + 1, rfl, Or.inl ?_⟩
      exact ⟨by simp, by simp, rfl, rfl⟩

@[simp] theorem deliver_phase (s : State) (event : IoEvent) :
    (deliver s event).phase = s.phase := by
  rw [deliver]
  split <;> rfl

@[simp] theorem deliver_complete (s : State) (event : IoEvent) :
    (deliver s event).complete = s.complete := by
  rw [deliver]
  split <;> rfl

@[simp] theorem deliver_trace (s : State) (event : IoEvent) :
    (deliver s event).trace = s.trace := by
  rw [deliver]
  split <;> rfl

/-- A completion moves its ticket from the engine into the bridge. -/
theorem work_complete {s : State} {before after : List Op} {op : Op}
    {completion : Completion} {event : IoEvent}
    {bridge : EventBridge.Inner IoEvent} (delivering : ℕ)
    (hpending : s.pending = before ++ op :: after)
    (hevent : op.onDone completion = some event)
    (hevents : bridge.events = s.bridge.events ++ [event]) :
    { s with pending := before ++ after, bridge, delivering }.work = s.work := by
  simp only [State.work, hevents, hpending, coe_map_middle, List.append_nil,
    onDone_ticket hevent, Multiset.cons_add, Multiset.add_cons]

/-- Draining the bridge moves its tickets into the batch. -/
theorem work_drain {s : State} (hbatch : s.batch = []) (commits : ℕ) :
    { s with bridge := .empty, batch := s.bridge.events, commits }.work =
      s.work := by
  simp [State.work, hbatch]

theorem work_discard_le (s : State) : { s with batch := [] }.work ≤ s.work := by
  simp only [State.work, List.map_nil]
  exact Multiset.add_le_add_left (Multiset.zero_le _)

/-! ## The accounting invariant -/

/-- The work a phase waits for. -/
def Phase.Expects (phase : Phase) (work : Multiset Ticket) : Prop :=
  match phase with
  | .idle => work = 0
  | .resolvingFile _ => work = {.opening}
  | .resolvingIndex _ _ => work = {.opening}
  | .streaming st => .opening ∉ work ∧ work.card = st.inflight
  | .done => .opening ∉ work

theorem expects_resolving {phase : Phase} {work : Multiset Ticket}
    (hphase : phase.isResolving = true) :
    phase.Expects work ↔ work = {.opening} := by
  cases phase with
  | resolvingFile pending => rfl
  | resolvingIndex dirFs pending => rfl
  | _ => simp [Phase.isResolving] at hphase

theorem expects_withDepth {phase : Phase} {work : Multiset Ticket} (depth : ℕ)
    (h : phase.Expects work) : (phase.withDepth depth).Expects work := by
  cases phase <;> exact h

/-- Only a resolving filter waits for an open, and it waits for nothing
else. -/
theorem resolving_of_opening {phase : Phase} {work : Multiset Ticket}
    (h : phase.Expects work) (hopening : .opening ∈ work) :
    phase.isResolving = true ∧ work = {.opening} := by
  cases phase with
  | idle =>
      rw [show work = 0 from h] at hopening
      exact absurd hopening (Multiset.notMem_zero _)
  | resolvingFile pending => exact ⟨rfl, h⟩
  | resolvingIndex dirFs pending => exact ⟨rfl, h⟩
  | streaming st => exact absurd hopening h.1
  | done => exact absurd hopening h

/-- A read is awaited only by a stream, or by nobody any more. -/
theorem expects_read {phase : Phase} {work : Multiset Ticket} {seq : ℕ}
    (h : phase.Expects work) (hread : .read seq ∈ work) :
    phase.isStreaming = true ∨ phase = .done := by
  cases phase with
  | idle =>
      rw [show work = 0 from h] at hread
      exact absurd hread (Multiset.notMem_zero _)
  | resolvingFile pending =>
      rw [show work = {.opening} from h, Multiset.mem_singleton] at hread
      cases hread
  | resolvingIndex dirFs pending =>
      rw [show work = {.opening} from h, Multiset.mem_singleton] at hread
      cases hread
  | streaming st => exact Or.inl rfl
  | done => exact Or.inr rfl

/-- While callbacks can still run, the bridge is open and the work is what the
phase waits for; afterwards no event is left to handle. -/
structure Accounted (cfg : Config) (s : State) : Prop where
  bridge : s.complete = false → s.bridge ≠ .closed
  balanced : s.complete = false → s.phase.Expects s.work
  batch : s.complete = true → s.batch = []
  window : ∀ st, s.phase = .streaming st → st.inflight ≤ cfg.maxInflightReads

theorem accounted_initial (cfg : Config) : Accounted cfg State.initial where
  bridge _ := by simp [State.initial]
  balanced _ := rfl
  batch _ := rfl
  window st h := by cases h

section Invariant

variable {crates : Crates} {cfg : Config} {env : Env} {s t : State}

/-- Events are handled only while callbacks can run. -/
theorem Accounted.active (h : Accounted cfg s) {event : IoEvent}
    {rest : List IoEvent} (hbatch : s.batch = event :: rest) :
    s.complete = false := by
  cases hcomplete : s.complete with
  | false => rfl
  | true =>
      rw [h.batch hcomplete] at hbatch
      cases hbatch

/-- The handled open was all the filter waited for. -/
theorem Accounted.opening (h : Accounted cfg s) {event : IoEvent}
    {rest : List IoEvent} (hbatch : s.batch = event :: rest)
    (hread : event.isRead = false) :
    s.phase.isResolving = true ∧ { s with batch := rest }.work = 0 := by
  have hwork := work_cons hbatch
  rw [ticket_of_not_isRead hread] at hwork
  have hbalanced := h.balanced (h.active hbatch)
  obtain ⟨hphase, hsingle⟩ := resolving_of_opening hbalanced
    (hwork ▸ Multiset.mem_cons_self _ _)
  refine ⟨hphase, ?_⟩
  rw [hwork] at hsingle
  exact Multiset.cons_inj_right _ |>.mp hsingle

/-- A handled read leaves a stream that has submitted it. -/
theorem Accounted.read (h : Accounted cfg s) {seq : ℕ} {result : ReadResult}
    {rest : List IoEvent} {st : Streaming}
    (hbatch : s.batch = .read seq result :: rest)
    (hphase : s.phase = .streaming st) :
    .opening ∉ { s with batch := rest }.work ∧
      { s with batch := rest }.work.card + 1 = st.inflight := by
  have hbalanced := h.balanced (h.active hbatch)
  rw [hphase, work_cons hbatch] at hbalanced
  obtain ⟨hopening, hcard⟩ := hbalanced
  rw [Multiset.card_cons] at hcard
  exact ⟨fun hmem => hopening (Multiset.mem_cons_of_mem hmem), hcard⟩

/-- Only a finished stream ignores an event. -/
theorem Accounted.ignored (h : Accounted cfg s) {event : IoEvent}
    {rest : List IoEvent} (hbatch : s.batch = event :: rest)
    (hstream : event.isRead = true → s.phase.isStreaming = false)
    (hresolve : event.isRead = false → s.phase.isResolving = false) :
    s.phase = .done := by
  have hbalanced := h.balanced (h.active hbatch)
  rw [work_cons hbatch] at hbalanced
  cases hread : event.isRead with
  | false =>
      obtain ⟨hphase, -⟩ := h.opening hbatch hread
      exact absurd (hphase.symm.trans (hresolve hread)) nofun
  | true =>
      cases event with
      | read seq result =>
          rcases expects_read hbalanced (Multiset.mem_cons_self _ _) with hst | hdone
          · exact absurd (hst.symm.trans (hstream hread)) nofun
          · exact hdone
      | _ => cases hread

/-- A change of phase within the stream's cells. -/
theorem Accounted.setPhase (h : Accounted cfg s) {phase : Phase}
    (hphase : s.complete = false → phase.Expects s.work)
    (hwindow : ∀ st, phase = .streaming st → st.inflight ≤ cfg.maxInflightReads) :
    Accounted cfg (s.setPhase phase) where
  bridge := h.bridge
  balanced := hphase
  batch := h.batch
  window := hwindow

/-- Taking an event out of the batch while changing the phase. -/
theorem Accounted.take (h : Accounted cfg s) {event : IoEvent}
    {rest : List IoEvent} (hbatch : s.batch = event :: rest) {phase : Phase}
    (hphase : phase.Expects { s with batch := rest }.work)
    (hwindow : ∀ st, phase = .streaming st → st.inflight ≤ cfg.maxInflightReads) :
    Accounted cfg ({ s with batch := rest }.setPhase phase) where
  bridge := h.bridge
  balanced _ := hphase
  batch hcomplete := by
    rw [h.active hbatch] at hcomplete
    cases hcomplete
  window := hwindow

/-- A change of the streaming state that keeps its in-flight count. -/
theorem Accounted.restream (h : Accounted cfg s) {st : Streaming}
    (hphase : s.phase = .streaming st) (st' : Streaming)
    (hinflight : st'.inflight = st.inflight) :
    Accounted cfg (s.setPhase (.streaming st')) := by
  refine h.setPhase (fun hcomplete => ?_) fun st'' hst => ?_
  · have hbalanced := h.balanced hcomplete
    rw [hphase] at hbalanced
    exact ⟨hbalanced.1, hbalanced.2.trans hinflight.symm⟩
  · cases hst
    exact hinflight.le.trans (h.window st hphase)

theorem Accounted.record (h : Accounted cfg s) (call : Call) :
    Accounted cfg (s.record call) :=
  ⟨h.bridge, h.balanced, h.batch, h.window⟩

theorem Accounted.onHook (h : Accounted cfg s) (hook : Hook) :
    Accounted cfg (s.onHook hook) := by
  obtain ⟨depth, commits, -, heq⟩ := onHook_eq s hook
  have hdepth : Accounted cfg (s.setPhase (s.phase.withDepth depth)) := by
    refine h.setPhase (fun hcomplete => ?_) fun st hst => ?_
    · exact expects_withDepth depth (h.balanced hcomplete)
    · cases hphase : s.phase with
      | streaming st' =>
          rw [hphase] at hst
          cases hst
          exact h.window st' hphase
      | _ => rw [hphase] at hst; cases hst
  rw [heq]
  exact ⟨hdepth.bridge, hdepth.balanced, hdepth.batch, hdepth.window⟩

/-- While callbacks can run, a completion loses no ticket. -/
theorem Accounted.complete_work (h : Accounted cfg s) {before after : List Op}
    {op : Op} {completion : Completion} {event : IoEvent}
    (hpending : s.pending = before ++ op :: after)
    (hevent : op.onDone completion = some event) (hactive : s.complete = false) :
    (deliver { s with pending := before ++ after } event).work = s.work := by
  obtain ⟨bridge, delivering, heq, ⟨-, -, hevents, -⟩ | ⟨hclosed, -, -⟩⟩ :=
    deliver_eq { s with pending := before ++ after } event
  · rw [heq]
    exact work_complete delivering hpending hevent hevents
  · exact absurd hclosed (h.bridge hactive)

theorem Accounted.complete (h : Accounted cfg s) {before after : List Op}
    {op : Op} {completion : Completion} {event : IoEvent}
    (hpending : s.pending = before ++ op :: after)
    (hevent : op.onDone completion = some event) :
    Accounted cfg (deliver { s with pending := before ++ after } event) := by
  have hwork := h.complete_work hpending hevent
  obtain ⟨bridge, delivering, heq, ⟨-, hne, -, -⟩ | ⟨hclosed, -, -⟩⟩ :=
    deliver_eq { s with pending := before ++ after } event
  · rw [heq] at hwork ⊢
    refine ⟨fun _ => hne, fun hcomplete => ?_, h.batch, h.window⟩
    rw [hwork hcomplete]
    exact h.balanced hcomplete
  · rw [heq]
    have hcomplete : s.complete = true := by
      by_contra hactive
      exact h.bridge (by simpa using hactive) hclosed
    refine ⟨fun hactive => ?_, fun hactive => ?_, h.batch, h.window⟩
    · exact absurd (hactive.symm.trans hcomplete) nofun
    · exact absurd (hactive.symm.trans hcomplete) nofun

theorem nextOpen_resolving {event : IoEvent} {phase : Phase} {fsPath : PathBuf}
    {ctx : OpenCtx} (h : NextOpen crates cfg s event phase fsPath ctx) :
    phase.isResolving = true := by
  cases h <;> rfl

/-- Every move keeps the accounts. -/
theorem accounted_move (hmove : Move crates cfg env s t) (h : Accounted cfg s) :
    Accounted cfg t := by
  have hwindow : ∀ phase : Phase, phase.isStreaming = false →
      ∀ st, phase = .streaming st → st.inflight ≤ cfg.maxInflightReads := by
    rintro phase hphase st rfl
    cases hphase
  cases hmove with
  | reentry reentry => exact ⟨h.bridge, h.balanced, h.batch, h.window⟩
  | hook hook => exact h.onHook hook
  | refuse status headers hphase =>
      refine (h.setPhase (fun hcomplete => ?_) (hwindow .done rfl)).record _
      have hbalanced := h.balanced hcomplete
      rw [hphase] at hbalanced
      rw [show s.work = 0 from hbalanced]
      exact Multiset.notMem_zero _
  | accept hphase _ _ =>
      refine ⟨h.bridge, fun hcomplete => ?_, h.batch, hwindow _ rfl⟩
      have hbalanced := h.balanced hcomplete
      rw [hphase] at hbalanced
      rw [work_submit]
      exact congrArg (Ticket.opening ::ₘ ·) hbalanced
  | complete hpending _ hevent => exact h.complete hpending hevent
  | commit _ => exact ⟨h.bridge, h.balanced, h.batch, h.window⟩
  | drain hbatch hcomplete =>
      refine ⟨fun _ => by simp, fun hactive => ?_, fun hactive => ?_, h.window⟩
      · rw [work_drain hbatch]
        exact h.balanced hactive
      · cases hcomplete.symm.trans hactive
  | openNext hbatch hread _ hnext =>
      have hphase := nextOpen_resolving hnext
      obtain ⟨-, hwork⟩ := h.opening hbatch hread
      refine ⟨h.bridge, fun _ => ?_, fun hcomplete => ?_, hwindow _ ?_⟩
      · rw [work_submit]
        exact (expects_resolving hphase).mpr (congrArg (Ticket.opening ::ₘ ·) hwork)
      · cases (h.active hbatch).symm.trans hcomplete
      · cases hnext <;> rfl
  | readDir path hbatch hread =>
      obtain ⟨hphase, hwork⟩ := h.opening hbatch hread
      refine ⟨h.bridge, fun _ => ?_, fun hcomplete => ?_, h.window⟩
      · rw [work_submit]
        exact (expects_resolving hphase).mpr (congrArg (Ticket.opening ::ₘ ·) hwork)
      · cases (h.active hbatch).symm.trans hcomplete
  | respond status headers body hbatch hread =>
      obtain ⟨-, hwork⟩ := h.opening hbatch hread
      refine (h.take hbatch ?_ (hwindow .done rfl)).record _
      rw [hwork]
      exact Multiset.notMem_zero _
  | sendHeaders headers hbatch hread =>
      obtain ⟨-, hwork⟩ := h.opening hbatch hread
      refine (h.take hbatch ?_ (hwindow .done rfl)).record _
      rw [hwork]
      exact Multiset.notMem_zero _
  | beginStreaming hbatch _ _ _ _ =>
      obtain ⟨-, hwork⟩ := h.opening hbatch rfl
      refine (h.take hbatch ?_ fun st hst => ?_).record _
      · rw [hwork]
        exact ⟨Multiset.notMem_zero _, rfl⟩
      · cases hst
        exact Nat.zero_le _
  | readOk hbatch hphase =>
      obtain ⟨hopening, hcard⟩ := h.read hbatch hphase
      refine h.take hbatch ⟨hopening, ?_⟩ fun st hst => ?_
      · simp only [← hcard, Nat.add_sub_cancel]
      · cases hst
        exact (Nat.sub_le _ _).trans (h.window _ hphase)
  | readError hbatch hphase =>
      obtain ⟨hopening, -⟩ := h.read hbatch hphase
      exact (h.take hbatch (show Phase.done.Expects _ from hopening)
        (hwindow .done rfl)).record _
  | ignore hbatch hstream hresolve =>
      have hdone := h.ignored hbatch hstream hresolve
      have hkept := h.take hbatch (show Phase.done.Expects _ from ?_)
        (hwindow .done rfl)
      · rw [State.setPhase, ← hdone] at hkept
        exact hkept
      · have hbalanced := h.balanced (h.active hbatch)
        rw [hdone, work_cons hbatch] at hbalanced
        exact fun hmem => hbalanced (Multiset.mem_cons_of_mem hmem)
  | discard hphase =>
      refine ⟨h.bridge, fun hcomplete => ?_, fun _ => rfl, h.window⟩
      have hbalanced := h.balanced hcomplete
      rw [hphase] at hbalanced
      show Phase.Expects s.phase _
      rw [hphase]
      exact fun hmem => hbalanced (Multiset.mem_of_le (work_discard_le s) hmem)
  | flushMore hphase _ _ _ => exact (h.restream hphase (Streaming.advance _) rfl).record _
  | flushLast hphase _ _ _ =>
      refine (h.setPhase (fun hcomplete => ?_) (hwindow .done rfl)).record _
      have hbalanced := h.balanced hcomplete
      rw [hphase] at hbalanced
      exact hbalanced.1
  | issueSkip hphase _ _ _ =>
      exact h.restream hphase _ rfl
  | issueRead hphase hroom _ _ =>
      refine ⟨h.bridge, fun hcomplete => ?_, h.batch, fun st hst => ?_⟩
      · have hbalanced := h.balanced hcomplete
        rw [hphase] at hbalanced
        obtain ⟨hopening, hcard⟩ := hbalanced
        rw [work_submit]
        refine ⟨?_, ?_⟩
        · simpa [Op.ticket] using hopening
        · rw [Multiset.card_cons, work_setPhase, hcard]
      · cases hst
        exact hroom
  | streamComplete hbatch => exact ⟨by simp [onStreamComplete], by simp [onStreamComplete], fun _ => hbatch,
      h.window⟩

end Invariant

end EnvoyFiles.Filter
