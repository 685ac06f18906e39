import EnvoyFiles.Filter.Accounting

/-!
# The handles a stream holds

A stream holds the handles of the events that wait for it and the one it streams from.  It
submits one open at a time, holds nothing while an open is outstanding and never more than
one handle, and from the regular file that opens first it takes all its reads.
-/

namespace EnvoyFiles.Filter

/-! ## Handles -/

def Op.isOpen : Op → Bool
  | .openStat _ _ => true
  | _ => false

/-- The handle that an event carries. -/
def IoEvent.handle : IoEvent → Option FileHandle
  | .opened handle _ _ _ => some handle
  | _ => none

/-- The handle of a regular file that an event carries. -/
def IoEvent.file : IoEvent → Option FileHandle
  | .opened handle stat _ _ => if stat.isDir then none else some handle
  | _ => none

/-- The handle that a phase streams from. -/
def Phase.handle : Phase → Option FileHandle
  | .streaming st => some st.handle
  | _ => none

/-- The handles that the cells of a filter hold. -/
def State.held (s : State) : List FileHandle :=
  s.phase.handle.toList ++ (s.bridge.events ++ s.batch).filterMap IoEvent.handle

/-! ## What a callback changes -/

/-- The environment of a callback: no operation completes while it runs. -/
def Env.silent : Env where
  requests _ := True
  completes _ _ _ := False

/-- A callback, as opposed to the completion of an operation. -/
def Action.isCallback : Action → Bool
  | .complete _ _ => false
  | _ => true

theorem silent_allows (s : State) {action : Action} (h : action.isCallback = true) :
    Env.silent.allows s action := by
  cases action with
  | complete index completion => cases h
  | _ => trivial

section Callbacks

variable {crates : Crates} {cfg : Config} {s t : State} {action : Action}

/-- What the moves of a callback keep, the callback keeps. -/
theorem callback_invariant {I : State → Prop}
    (hmove : ∀ u v, Move crates cfg Env.silent u v → I u → I v)
    (hcallback : action.isCallback = true) (hbatch : s.batch = [])
    (hstep : step crates cfg s action = some t) (hs : I s) : I t := by
  obtain ⟨hmoves, -⟩ := step_moves hbatch (silent_allows s hcallback) hstep
  exact Transition.closure_invariant hmoves hmove hs

theorem handle_withDepth (phase : Phase) (depth : ℕ) :
    (phase.withDepth depth).handle = phase.handle := by
  cases phase <;> rfl

theorem handle_of_not_streaming {phase : Phase} (h : phase.isStreaming = false) :
    phase.handle = none := by
  cases phase with
  | streaming st => cases h
  | _ => rfl

/-- A callback adds to what is pending. -/
theorem silent_pending (hmove : Move crates cfg Env.silent s t) : s.pending <+: t.pending := by
  cases hmove with
  | complete _ hok _ => exact hok.elim
  | hook hook =>
      obtain ⟨depth, commits, -, heq⟩ := onHook_eq s hook
      rw [heq]
  | accept _ _ _ => exact List.prefix_append _ _
  | openNext _ _ _ _ => exact List.prefix_append _ _
  | readDir _ _ _ => exact List.prefix_append _ _
  | issueRead _ _ _ _ => exact List.prefix_append _ _
  | _ => exact List.prefix_rfl

/-- Nothing more is held where events are taken away and the phase keeps its handle or lets
go of it. -/
theorem held_le (hevents : (t.bridge.events ++ t.batch).Sublist (s.bridge.events ++ s.batch))
    (hphase : t.phase.handle = none ∨ t.phase.handle = s.phase.handle) :
    (t.held : Multiset FileHandle) ≤ s.held := by
  rw [State.held, State.held, Multiset.coe_le]
  refine List.Sublist.subperm (List.Sublist.append ?_ (hevents.filterMap _))
  rcases hphase with hnone | hsame
  · rw [hnone]
    exact List.nil_sublist _
  · rw [hsame]

/-- An event that is taken out of the batch takes its handle with it. -/
theorem held_cons {event : IoEvent} {rest : List IoEvent} (hbatch : s.batch = event :: rest) :
    (s.held : Multiset FileHandle) =
      (event.handle.toList : Multiset FileHandle) + { s with batch := rest }.held := by
  have hevents : (s.bridge.events ++ s.batch).filterMap IoEvent.handle =
      s.bridge.events.filterMap IoEvent.handle ++
        (event.handle.toList ++ rest.filterMap IoEvent.handle) := by
    rw [hbatch, List.filterMap_append]
    cases hhandle : event.handle with
    | none => rw [List.filterMap_cons_none hhandle, Option.toList_none, List.nil_append]
    | some handle =>
        rw [List.filterMap_cons_some hhandle, Option.toList_some, List.singleton_append]
  rw [State.held, State.held, hevents]
  dsimp only
  rw [List.filterMap_append]
  simp only [← Multiset.coe_add]
  abel

/-- A callback takes hold of no handle. -/
theorem silent_held (hmove : Move crates cfg Env.silent s t) :
    (t.held : Multiset FileHandle) ≤ s.held := by
  have hrest {event : IoEvent} {rest : List IoEvent} (hbatch : s.batch = event :: rest) :
      (s.bridge.events ++ rest).Sublist (s.bridge.events ++ s.batch) := by
    rw [hbatch]
    exact List.Sublist.append_left (List.sublist_cons_self event rest) _
  cases hmove with
  | complete _ hok _ => exact hok.elim
  | hook hook =>
      obtain ⟨depth, commits, -, heq⟩ := onHook_eq s hook
      rw [heq]
      exact held_le (List.Sublist.refl _) (Or.inr (handle_withDepth s.phase depth))
  | refuse _ _ _ => exact held_le (List.Sublist.refl _) (Or.inl rfl)
  | accept _ _ _ => exact held_le (List.Sublist.refl _) (Or.inl rfl)
  | drain hbatch _ =>
      refine held_le ?_ (Or.inr rfl)
      rw [hbatch, List.append_nil]
      exact List.Sublist.refl _
  | openNext hbatch _ _ hnext =>
      refine held_le (hrest hbatch) (Or.inl (handle_of_not_streaming ?_))
      exact not_streaming_of_resolving (nextOpen_resolving hnext)
  | readDir _ hbatch _ => exact held_le (hrest hbatch) (Or.inr rfl)
  | respond _ _ _ hbatch _ => exact held_le (hrest hbatch) (Or.inl rfl)
  | sendHeaders _ hbatch _ => exact held_le (hrest hbatch) (Or.inl rfl)
  | @beginStreaming handle stat ctx prefetched rest request plan hbatch _ _ _ _ =>
      rw [held_cons hbatch]
      rw [State.held, State.held, ← Multiset.coe_add, ← Multiset.coe_add]
      exact add_le_add le_rfl (Multiset.le_add_left _ _)
  | readOk hbatch hphase =>
      refine held_le (hrest hbatch) (Or.inr ?_)
      rw [hphase]
      rfl
  | readError hbatch _ => exact held_le (hrest hbatch) (Or.inl rfl)
  | ignore hbatch _ _ => exact held_le (hrest hbatch) (Or.inr rfl)
  | discard _ =>
      exact held_le (List.Sublist.append_left (List.nil_sublist _) _) (Or.inr rfl)
  | flushMore hphase _ _ _ =>
      refine held_le (List.Sublist.refl _) (Or.inr ?_)
      rw [hphase]
      rfl
  | flushLast _ _ _ _ => exact held_le (List.Sublist.refl _) (Or.inl rfl)
  | issueSkip hphase _ _ _ =>
      refine held_le (List.Sublist.refl _) (Or.inr ?_)
      rw [hphase]
      rfl
  | issueRead hphase _ _ _ =>
      refine held_le (List.Sublist.refl _) (Or.inr ?_)
      rw [hphase]
      rfl
  | streamComplete hbatch =>
      exact held_le (List.Sublist.append_right (List.nil_sublist _) _) (Or.inr rfl)
  | _ => exact held_le (List.Sublist.refl _) (Or.inr rfl)

/-- So is a whole callback: it adds operations to the pending ones and takes hold of no
handle. -/
theorem callback_keeps (hcallback : action.isCallback = true) (hbatch : s.batch = [])
    (hstep : step crates cfg s action = some t) :
    s.pending <+: t.pending ∧ (t.held : Multiset FileHandle) ≤ s.held := by
  refine callback_invariant (I := fun t => s.pending <+: t.pending ∧
    (t.held : Multiset FileHandle) ≤ s.held) ?_ hcallback hbatch hstep ⟨List.prefix_rfl, le_rfl⟩
  rintro u v hmove ⟨hpending, hheld⟩
  exact ⟨hpending.trans (silent_pending hmove), (silent_held hmove).trans hheld⟩

end Callbacks

/-! ## What a completion changes -/

section Completions

variable {s t : State} {op : Op} {completion : Completion} {event : IoEvent}

/-- An event that is delivered is held, unless the bridge is closed. -/
theorem deliver_held (s : State) (event : IoEvent) :
    (s.bridge ≠ .closed ∧ ((deliver s event).held : Multiset FileHandle) =
        (event.handle.toList : Multiset FileHandle) + s.held) ∨
      s.bridge = .closed ∧ (deliver s event).held = s.held := by
  obtain ⟨bridge, delivering, heq, ⟨hopen, -, hevents, -⟩ | ⟨hclosed, hstays, -⟩⟩ :=
    deliver_eq s event
  · refine Or.inl ⟨hopen, ?_⟩
    have hsingle : [event].filterMap IoEvent.handle = event.handle.toList := by
      cases hhandle : event.handle with
      | none => exact List.filterMap_cons_none hhandle
      | some handle => exact List.filterMap_cons_some hhandle
    rw [heq, State.held, State.held, hevents]
    dsimp only
    simp only [List.filterMap_append, hsingle, ← Multiset.coe_add]
    abel
  · refine Or.inr ⟨hclosed, ?_⟩
    rw [heq, State.held, State.held, hstays, hclosed]

/-- Only an open delivers a handle. -/
theorem onDone_handle (h : op.onDone completion = some event) (hop : op.isOpen = false) :
    event.handle = none := by
  cases event with
  | opened handle stat ctx prefetched =>
      cases op with
      | openStat request ctx' => cases hop
      | read handle' offset len seq => cases completion <;> cases h
      | readDir path => cases completion <;> cases h
  | _ => rfl

end Completions

/-! ## One open at a time -/

/-- An open is outstanding alone; a stream that has not been asked has submitted nothing, and
one that is complete has closed its bridge. -/
structure OpensAlone (s : State) : Prop where
  alone : ∀ op ∈ s.pending, op.isOpen = true →
    s.pending = [op] ∧ s.bridge.events = [] ∧ s.phase.isResolving = true
  idle : s.phase = .idle → s.pending = []
  closed : s.complete = true → s.bridge = .closed

section Alone

variable {crates : Crates} {cfg : Config} {env : Env} {s t : State} {action : Action}
  {actions : List Action}

theorem opensAlone_initial : OpensAlone State.initial :=
  ⟨fun _ hop => absurd hop List.not_mem_nil, fun _ => rfl, Bool.noConfusion⟩

/-- While callbacks can run, this follows from the accounts. -/
theorem Accounted.opensAlone (h : Accounted cfg s) (hactive : s.complete = false) :
    OpensAlone s where
  alone op hop hopen := by
    have hticket : op.ticket = .opening := by
      cases op with
      | openStat request ctx => rfl
      | _ => cases hopen
    have hmem := ticket_pending hop
    rw [hticket] at hmem
    obtain ⟨hresolving, hwork⟩ := resolving_of_opening (h.balanced hactive) hmem
    have hcard := congrArg Multiset.card hwork
    simp only [State.work, Multiset.card_add, Multiset.coe_card, List.length_map,
      Multiset.card_singleton] at hcard
    have hpos := List.length_pos_of_mem hop
    have hlength : s.pending.length = 1 := by omega
    have hevents : s.bridge.events.length = 0 := by omega
    obtain ⟨other, hpending⟩ := List.length_eq_one_iff.mp hlength
    rw [hpending, List.mem_singleton] at hop
    rw [hop]
    exact ⟨hpending, List.length_eq_zero_iff.mp hevents, hresolving⟩
  idle hidle := by
    have hwork := h.balanced hactive
    rw [hidle] at hwork
    exact (work_eq_zero_iff.mp hwork).1
  closed hcomplete := absurd (hactive.symm.trans hcomplete) Bool.noConfusion

/-- Where no operation is submitted and the phase stays or ends, an open that is outstanding
stays alone. -/
theorem OpensAlone.keep (h : OpensAlone s) (hpending : t.pending = s.pending)
    (hbridge : t.bridge = s.bridge) (hcomplete : t.complete = s.complete)
    (hphase : s.phase.isResolving = true → t.phase.isResolving = true)
    (hidle : t.phase = .idle → s.phase = .idle) : OpensAlone t where
  alone op hop hopen := by
    rw [hpending] at hop
    obtain ⟨hsingle, hevents, hresolving⟩ := h.alone op hop hopen
    exact ⟨hpending.trans hsingle, by rw [hbridge, hevents], hphase hresolving⟩
  idle hstays := by rw [hpending, h.idle (hidle hstays)]
  closed hdone := by rw [hbridge, h.closed (hcomplete ▸ hdone)]

/-- Only `on_stream_complete` completes a stream. -/
theorem move_complete (hmove : Move crates cfg env s t) :
    t.complete = s.complete ∨ t = onStreamComplete s := by
  cases hmove with
  | hook hook =>
      obtain ⟨depth, commits, -, heq⟩ := onHook_eq s hook
      rw [heq]
      exact Or.inl rfl
  | complete _ _ _ => exact Or.inl (deliver_complete _ _)
  | streamComplete _ => exact Or.inr rfl
  | _ => exact Or.inl rfl

theorem OpensAlone.streamComplete (h : OpensAlone s) : OpensAlone (onStreamComplete s) where
  alone op hop hopen := by
    obtain ⟨hsingle, -, hresolving⟩ := h.alone op hop hopen
    exact ⟨hsingle, rfl, hresolving⟩
  idle := h.idle
  closed _ := rfl

/-- Every move of a complete stream leaves an open that is outstanding alone. -/
theorem OpensAlone.gone_move (h : OpensAlone s) (haccount : Accounted cfg s)
    (hmove : Move crates cfg env s t) (hcomplete : s.complete = true) : OpensAlone t := by
  have hbatch := haccount.batch hcomplete
  have hnone {event : IoEvent} {rest : List IoEvent} (hcons : s.batch = event :: rest) : False := by
    rw [hbatch] at hcons
    cases hcons
  have hstreaming {st : Streaming} (hphase : s.phase = .streaming st) :
      s.phase.isResolving = false := by
    rw [hphase]
    rfl
  cases hmove with
  | reentry reentry => exact h.keep rfl rfl rfl id id
  | hook hook =>
      obtain ⟨depth, commits, -, heq⟩ := onHook_eq s hook
      rw [heq]
      refine h.keep rfl rfl rfl ?_ ?_
      · cases s.phase <;> exact id
      · cases s.phase with
        | idle => exact fun _ => rfl
        | _ => exact fun hidle => by cases hidle
  | refuse status headers hidle =>
      refine ⟨fun op hop hopen => ?_, by rintro ⟨⟩, h.closed⟩
      have hpending : op ∈ s.pending := hop
      rw [h.idle hidle] at hpending
      cases hpending
  | accept hidle _ _ =>
      refine ⟨fun op hop hopen => ?_, by rintro ⟨⟩, h.closed⟩
      have hpending := h.idle hidle
      rw [State.submit, State.record] at hop ⊢
      dsimp only at hop ⊢
      rw [hpending, List.nil_append] at hop ⊢
      rw [List.mem_singleton.mp hop, h.closed hcomplete]
      exact ⟨rfl, rfl, rfl⟩
  | @complete before after op completion event hpending _ _ =>
      obtain ⟨bridge, delivering, heq, ⟨hopen, -⟩ | ⟨-, hclosed, -⟩⟩ :=
        deliver_eq { s with pending := before ++ after } event
      · exact absurd (h.closed hcomplete) hopen
      · rw [heq]
        refine ⟨fun other hother hopen => ?_, fun hidle => ?_, fun _ => hclosed⟩
        · obtain ⟨hsingle, -, -⟩ := h.alone other (mem_of_mem_rest hpending hother) hopen
          rw [hsingle] at hpending
          have hlength := congrArg List.length hpending
          have hpos := List.length_pos_of_mem hother
          simp only [List.length_append, List.length_cons, List.length_nil] at hlength hpos
          omega
        · rw [h.idle hidle] at hpending
          exact absurd hpending.symm (List.append_ne_nil_of_right_ne_nil _ (List.cons_ne_nil _ _))
  | commit _ => exact h.keep rfl rfl rfl id id
  | drain _ hactive => exact absurd (hcomplete.symm.trans hactive) Bool.noConfusion
  | openNext hcons _ _ _ => exact (hnone hcons).elim
  | readDir _ hcons _ => exact (hnone hcons).elim
  | respond _ _ _ hcons _ => exact (hnone hcons).elim
  | sendHeaders _ hcons _ => exact (hnone hcons).elim
  | beginStreaming hcons _ _ _ _ => exact (hnone hcons).elim
  | readOk hcons _ => exact (hnone hcons).elim
  | readError hcons _ => exact (hnone hcons).elim
  | ignore hcons _ _ => exact (hnone hcons).elim
  | discard hphase => exact h.keep rfl rfl rfl id id
  | flushMore hphase _ _ _ =>
      refine h.keep rfl rfl rfl ?_ (by rintro ⟨⟩)
      rw [hstreaming hphase]
      rintro ⟨⟩
  | flushLast hphase _ _ _ =>
      refine h.keep rfl rfl rfl ?_ (by rintro ⟨⟩)
      rw [hstreaming hphase]
      rintro ⟨⟩
  | issueSkip hphase _ _ _ =>
      refine h.keep rfl rfl rfl ?_ (by rintro ⟨⟩)
      rw [hstreaming hphase]
      rintro ⟨⟩
  | issueRead hphase _ _ _ =>
      refine ⟨fun op hop hopen => ?_, by rintro ⟨⟩, h.closed⟩
      rcases List.mem_append.mp hop with hearlier | hlast
      · obtain ⟨-, -, hresolving⟩ := h.alone op hearlier hopen
        rw [hstreaming hphase] at hresolving
        cases hresolving
      · rw [List.mem_singleton.mp hlast] at hopen
        cases hopen
  | streamComplete _ => exact h.streamComplete

theorem opensAlone_move (hmove : Move crates cfg env s t) (haccount : Accounted cfg s)
    (h : OpensAlone s) : OpensAlone t := by
  cases hcomplete : s.complete with
  | true => exact h.gone_move haccount hmove hcomplete
  | false =>
      rcases move_complete hmove with hactive | rfl
      · exact (accounted_move hmove haccount).opensAlone (hactive.trans hcomplete)
      · exact h.streamComplete

/-- In every run an open is outstanding alone. -/
theorem run_opensAlone (hrun : StreamRun crates cfg env State.initial actions s) :
    Accounted cfg s ∧ OpensAlone s ∧ s.batch = [] := by
  have hinvariant := run_invariant (I := fun s => Accounted cfg s ∧ OpensAlone s)
    (fun u v hmove hu => ⟨accounted_move hmove hu.1, opensAlone_move hmove hu.1 hu.2⟩)
    rfl ⟨accounted_initial cfg, opensAlone_initial⟩ hrun
  exact ⟨hinvariant.1.1, hinvariant.1.2, hinvariant.2⟩

/-- An event that carries a handle has the ticket of an open. -/
theorem events_unheld (hwork : .opening ∉ s.work) :
    s.bridge.events.filterMap IoEvent.handle = [] := by
  rw [List.filterMap_eq_nil_iff]
  intro event hevent
  cases event with
  | opened handle stat ctx prefetched => exact absurd (ticket_event hevent) hwork
  | _ => rfl

/-- While callbacks can run, the accounts leave room for one handle. -/
theorem Accounted.held (h : Accounted cfg s) (hactive : s.complete = false) :
    (s.phase.handle.toList ++ s.bridge.events.filterMap IoEvent.handle).length ≤ 1 := by
  have hbalanced := h.balanced hactive
  rw [List.length_append]
  by_cases hopening : .opening ∈ s.work
  · obtain ⟨hresolving, hwork⟩ := resolving_of_opening hbalanced hopening
    have hcard := congrArg Multiset.card hwork
    simp only [State.work, Multiset.card_add, Multiset.coe_card, List.length_map,
      Multiset.card_singleton] at hcard
    have hle := List.length_filterMap_le IoEvent.handle s.bridge.events
    rw [handle_of_not_streaming (not_streaming_of_resolving hresolving)]
    simp only [Option.toList_none, List.length_nil]
    omega
  · rw [events_unheld hopening]
    cases s.phase.handle <;> simp

/-- Between callbacks a stream holds at most one handle, and none while an open is
outstanding. -/
theorem run_held (hrun : StreamRun crates cfg env State.initial actions s) :
    s.held.length ≤ 1 ∧ ∀ op ∈ s.pending, op.isOpen = true → s.held = [] := by
  obtain ⟨haccount, halone, hbatch⟩ := run_opensAlone hrun
  have hevents : s.held =
      s.phase.handle.toList ++ s.bridge.events.filterMap IoEvent.handle := by
    rw [State.held, hbatch, List.append_nil]
  constructor
  · rw [hevents]
    cases hcomplete : s.complete with
    | false => exact haccount.held hcomplete
    | true =>
        rw [halone.closed hcomplete]
        cases s.phase.handle <;> simp
  · intro op hop hopen
    obtain ⟨-, hnone, hresolving⟩ := halone.alone op hop hopen
    rw [hevents, hnone, handle_of_not_streaming (not_streaming_of_resolving hresolving)]
    rfl

end Alone

/-! ## The file that is read -/

/-- No regular file has been opened yet. -/
structure Unopened (s : State) : Prop where
  pending : ∀ op ∈ s.pending, op.isRead = false
  events : ∀ event ∈ s.bridge.events ++ s.batch, event.isRead = false ∧ event.file = none
  phase : s.phase.isStreaming = false

/-- An event that leads to no other open than that of the handle. -/
def IoEvent.Settles (handle : FileHandle) : IoEvent → Prop
  | .opened handle' stat _ _ => handle' = handle ∧ stat.isDir = false
  | .openError _ => False
  | _ => True

/-- A regular file has been opened, and whatever is read is read through its handle. -/
structure ReadsFrom (handle : FileHandle) (s : State) : Prop where
  asked : s.phase ≠ .idle
  opens : ∀ op ∈ s.pending, op.isOpen = false
  reads : ∀ handle' offset len seq, .read handle' offset len seq ∈ s.pending →
    handle' = handle
  events : ∀ event ∈ s.bridge.events ++ s.batch, event.Settles handle
  streams : ∀ st, s.phase = .streaming st → st.handle = handle

section Files

variable {crates : Crates} {cfg : Config} {env : Env} {s t : State} {action : Action}
  {actions : List Action} {handle : FileHandle}

theorem unopened_initial : Unopened State.initial :=
  ⟨fun _ hop => absurd hop List.not_mem_nil, fun _ hevent => absurd hevent List.not_mem_nil, rfl⟩

/-- Until a regular file opens, nothing is read. -/
theorem silent_unopened (hmove : Move crates cfg Env.silent s t) (h : Unopened s) :
    Unopened t := by
  have hrest {event : IoEvent} {rest : List IoEvent} (hbatch : s.batch = event :: rest) :
      ∀ other ∈ s.bridge.events ++ rest, other.isRead = false ∧ other.file = none :=
    fun other hother => h.events other (mem_events_of_rest hbatch hother)
  have hstreaming {st : Streaming} (hphase : s.phase = .streaming st) : False := by
    have hnot := h.phase
    rw [hphase] at hnot
    cases hnot
  have hsubmit {op : Op} (hop : op.isRead = false) :
      ∀ other ∈ s.pending ++ [op], other.isRead = false := by
    intro other hother
    rcases List.mem_append.mp hother with hearlier | hlast
    · exact h.pending other hearlier
    · rw [List.mem_singleton.mp hlast]
      exact hop
  cases hmove with
  | reentry reentry => exact ⟨h.pending, h.events, h.phase⟩
  | hook hook =>
      obtain ⟨depth, commits, -, heq⟩ := onHook_eq s hook
      rw [heq]
      refine ⟨h.pending, h.events, ?_⟩
      have hphase := h.phase
      cases hcases : s.phase with
      | streaming st => exact (hstreaming hcases).elim
      | _ => rfl
  | refuse _ _ _ => exact ⟨h.pending, h.events, rfl⟩
  | accept _ _ _ => exact ⟨hsubmit rfl, h.events, rfl⟩
  | complete _ hok _ => exact hok.elim
  | commit _ => exact ⟨h.pending, h.events, h.phase⟩
  | drain hbatch _ =>
      refine ⟨h.pending, fun event hevent => h.events event ?_, h.phase⟩
      exact List.mem_append_left _ hevent
  | openNext hbatch _ _ hnext =>
      exact ⟨hsubmit rfl, hrest hbatch, not_streaming_of_resolving (nextOpen_resolving hnext)⟩
  | readDir _ hbatch _ => exact ⟨hsubmit rfl, hrest hbatch, h.phase⟩
  | respond _ _ _ hbatch _ => exact ⟨h.pending, hrest hbatch, rfl⟩
  | sendHeaders _ hbatch _ => exact ⟨h.pending, hrest hbatch, rfl⟩
  | @beginStreaming handle stat ctx prefetched rest request plan hbatch _ hdir _ _ =>
      have hevent := (h.events _ (by
        rw [hbatch]
        exact List.mem_append_cons_self)).2
      rw [IoEvent.file, hdir] at hevent
      cases hevent
  | readOk _ hphase => exact (hstreaming hphase).elim
  | readError _ hphase => exact (hstreaming hphase).elim
  | ignore hbatch _ _ => exact ⟨h.pending, hrest hbatch, h.phase⟩
  | discard _ =>
      refine ⟨h.pending, fun event hevent => h.events event ?_, h.phase⟩
      rcases List.mem_append.mp hevent with hbridge | hnone
      · exact List.mem_append_left _ hbridge
      · cases hnone
  | flushMore hphase _ _ _ => exact (hstreaming hphase).elim
  | flushLast hphase _ _ _ => exact (hstreaming hphase).elim
  | issueSkip hphase _ _ _ => exact (hstreaming hphase).elim
  | issueRead hphase _ _ _ => exact (hstreaming hphase).elim
  | streamComplete hbatch =>
      refine ⟨h.pending, fun event hevent => h.events event ?_, h.phase⟩
      exact List.mem_append_right _ hevent

/-- Behind the first regular file no other is opened. -/
theorem silent_readsFrom (hmove : Move crates cfg Env.silent s t) (h : ReadsFrom handle s) :
    ReadsFrom handle t := by
  have hrest {event : IoEvent} {rest : List IoEvent} (hbatch : s.batch = event :: rest) :
      ∀ other ∈ s.bridge.events ++ rest, other.Settles handle :=
    fun other hother => h.events other (mem_events_of_rest hbatch hother)
  have hevent {event : IoEvent} {rest : List IoEvent} (hbatch : s.batch = event :: rest) :
      event.Settles handle := by
    refine h.events event (List.mem_append_right _ ?_)
    rw [hbatch]
    exact List.mem_cons_self
  cases hmove with
  | reentry reentry => exact ⟨h.asked, h.opens, h.reads, h.events, h.streams⟩
  | hook hook =>
      obtain ⟨depth, commits, -, heq⟩ := onHook_eq s hook
      rw [heq]
      have hasked := h.asked
      have hstreams := h.streams
      cases hphase : s.phase with
      | idle => exact absurd hphase hasked
      | streaming st =>
          rw [hphase] at hstreams
          refine ⟨by rintro ⟨⟩, h.opens, h.reads, h.events, ?_⟩
          rintro st' ⟨⟩
          exact hstreams st rfl
      | _ => exact ⟨by rintro ⟨⟩, h.opens, h.reads, h.events, by rintro _ ⟨⟩⟩
  | refuse _ _ hidle => exact absurd hidle h.asked
  | accept hidle _ _ => exact absurd hidle h.asked
  | complete _ hok _ => exact hok.elim
  | commit _ => exact ⟨h.asked, h.opens, h.reads, h.events, h.streams⟩
  | drain hbatch _ =>
      refine ⟨h.asked, h.opens, h.reads, fun event hevent => h.events event ?_, h.streams⟩
      exact List.mem_append_left _ hevent
  | @openNext event rest phase fsPath ctx hbatch _ _ hnext =>
      have hsettles := hevent hbatch
      have hnoMiss (hmiss : event.isMiss = true) : False := by
        cases event with
        | opened handle' stat ctx' prefetched =>
            rw [IoEvent.isMiss, hsettles.2] at hmiss
            cases hmiss
        | openError error => exact hsettles
        | _ => cases hmiss
      cases hnext with
      | candidate _ hmiss => exact (hnoMiss hmiss).elim
      | index _ hmiss => exact (hnoMiss hmiss).elim
      | directory heq hdir _ _ _ _ _ =>
          rw [heq] at hsettles
          exact absurd (hsettles.2.symm.trans hdir) Bool.noConfusion
  | readDir path hbatch _ =>
      refine ⟨h.asked, fun op hop => ?_, fun handle' offset len seq hop => ?_, hrest hbatch,
        h.streams⟩
      · rcases List.mem_append.mp hop with hearlier | hlast
        · exact h.opens op hearlier
        · rw [List.mem_singleton.mp hlast]
          rfl
      · rcases List.mem_append.mp hop with hearlier | hlast
        · exact h.reads handle' offset len seq hearlier
        · cases List.mem_singleton.mp hlast
  | respond _ _ _ hbatch _ => exact ⟨by rintro ⟨⟩, h.opens, h.reads, hrest hbatch, by rintro _ ⟨⟩⟩
  | sendHeaders _ hbatch _ => exact ⟨by rintro ⟨⟩, h.opens, h.reads, hrest hbatch, by rintro _ ⟨⟩⟩
  | beginStreaming hbatch _ _ _ _ =>
      refine ⟨by rintro ⟨⟩, h.opens, h.reads, hrest hbatch, ?_⟩
      rintro st ⟨⟩
      exact (hevent hbatch).1
  | @readOk seq data rest st hbatch hphase =>
      refine ⟨by rintro ⟨⟩, h.opens, h.reads, hrest hbatch, ?_⟩
      rintro st' ⟨⟩
      exact h.streams st hphase
  | readError hbatch _ => exact ⟨by rintro ⟨⟩, h.opens, h.reads, hrest hbatch, by rintro _ ⟨⟩⟩
  | ignore hbatch _ _ => exact ⟨h.asked, h.opens, h.reads, hrest hbatch, h.streams⟩
  | discard _ =>
      refine ⟨h.asked, h.opens, h.reads, fun event hevent => h.events event ?_, h.streams⟩
      rcases List.mem_append.mp hevent with hbridge | hnone
      · exact List.mem_append_left _ hbridge
      · cases hnone
  | @flushMore st bytes hphase _ _ _ =>
      refine ⟨by rintro ⟨⟩, h.opens, h.reads, h.events, ?_⟩
      rintro st' ⟨⟩
      exact h.streams st hphase
  | flushLast _ _ _ _ => exact ⟨by rintro ⟨⟩, h.opens, h.reads, h.events, by rintro _ ⟨⟩⟩
  | @issueSkip st chunk hphase _ _ _ =>
      refine ⟨by rintro ⟨⟩, h.opens, h.reads, h.events, ?_⟩
      rintro st' ⟨⟩
      exact h.streams st hphase
  | @issueRead st offset len hphase _ _ _ =>
      refine ⟨by rintro ⟨⟩, fun op hop => ?_, fun handle' offset' len' seq hop => ?_, h.events, ?_⟩
      · rcases List.mem_append.mp hop with hearlier | hlast
        · exact h.opens op hearlier
        · rw [List.mem_singleton.mp hlast]
          rfl
      · rcases List.mem_append.mp hop with hearlier | hlast
        · exact h.reads handle' offset' len' seq hearlier
        · cases List.mem_singleton.mp hlast
          exact h.streams st hphase
      · rintro st' ⟨⟩
        exact h.streams st hphase
  | streamComplete hbatch =>
      refine ⟨h.asked, h.opens, h.reads, fun event hevent => h.events event ?_, h.streams⟩
      exact List.mem_append_right _ hevent

/-- A completed operation is one of those that were pending. -/
theorem deliver_events (s : State) (event : IoEvent) {other : IoEvent}
    (h : other ∈ (deliver s event).bridge.events ++ (deliver s event).batch) :
    other = event ∨ other ∈ s.bridge.events ++ s.batch := by
  obtain ⟨bridge, delivering, heq, ⟨-, -, hevents, -⟩ | ⟨hclosed, hstays, -⟩⟩ :=
    deliver_eq s event
  · rw [heq, hevents] at h
    rcases List.mem_append.mp h with hbridge | hbatch
    · rcases List.mem_append.mp hbridge with hearlier | hlast
      · exact Or.inr (List.mem_append_left _ hearlier)
      · exact Or.inl (List.mem_singleton.mp hlast)
    · exact Or.inr (List.mem_append_right _ hbatch)
  · rw [heq, hstays] at h
    rw [hclosed]
    exact Or.inr h

theorem deliver_pending (s : State) (event : IoEvent) :
    (deliver s event).pending = s.pending := by
  rw [deliver]
  split <;> rfl

/-- An operation other than a read delivers no read. -/
theorem onDone_isRead {op : Op} {completion : Completion} {event : IoEvent}
    (h : op.onDone completion = some event) (hop : op.isRead = false) :
    event.isRead = false := by
  cases event with
  | read seq result =>
      obtain ⟨handle, offset, len, rfl, -⟩ := onDone_read h
      cases hop
  | _ => rfl

/-- An operation other than an open delivers an event that settles. -/
theorem onDone_settles {op : Op} {completion : Completion} {event : IoEvent}
    (h : op.onDone completion = some event) (hop : op.isOpen = false) :
    event.Settles handle := by
  cases op with
  | openStat request ctx => cases hop
  | read handle' offset len seq =>
      cases completion with
      | read result =>
          cases h
          trivial
      | openStat result => cases h
      | readDir result => cases h
  | readDir path =>
      cases completion with
      | readDir result =>
          cases h
          trivial
      | openStat result => cases h
      | read result => cases h

section Complete

variable {before after : List Op} {op : Op} {completion : Completion} {event : IoEvent}

/-- A completion that opens no regular file. -/
theorem Unopened.complete (h : Unopened s) (hpending : s.pending = before ++ op :: after)
    (hevent : op.onDone completion = some event) (hfile : event.file = none) :
    Unopened (deliver { s with pending := before ++ after } event) where
  pending other hother := by
    rw [deliver_pending] at hother
    exact h.pending other (mem_of_mem_rest hpending hother)
  events other hother := by
    rcases deliver_events _ _ hother with rfl | hearlier
    · refine ⟨onDone_isRead hevent (h.pending op ?_), hfile⟩
      rw [hpending]
      exact List.mem_append_cons_self
    · exact h.events other hearlier
  phase := by
    rw [deliver_phase]
    exact h.phase

/-- The completion that opens the regular file. -/
theorem OpensAlone.opens (halone : OpensAlone s) (hbatch : s.batch = [])
    (hpending : s.pending = before ++ op :: after)
    (hevent : op.onDone completion = some event) (hfile : event.file = some handle) :
    ReadsFrom handle (deliver { s with pending := before ++ after } event) := by
  have hop : op ∈ s.pending := by
    rw [hpending]
    exact List.mem_append_cons_self
  have hsettles : event.Settles handle := by
    cases event with
    | opened handle' stat ctx prefetched =>
        rw [IoEvent.file] at hfile
        split at hfile
        · cases hfile
        · next hdir => exact ⟨Option.some.inj hfile, by simpa using hdir⟩
    | _ => cases hfile
  have hopen : op.isOpen = true := by
    by_contra hnot
    cases event with
    | opened handle' stat ctx prefetched =>
        cases onDone_handle hevent (by simpa using hnot)
    | _ => cases hfile
  obtain ⟨hsingle, hevents, hresolving⟩ := halone.alone op hop hopen
  have hnone : before ++ after = [] := by
    rw [hsingle] at hpending
    have hlength := congrArg List.length hpending
    simp only [List.length_append, List.length_cons, List.length_nil] at hlength
    exact List.length_eq_zero_iff.mp (by rw [List.length_append]; omega)
  refine ⟨?_, ?_, ?_, ?_, ?_⟩
  · rw [deliver_phase]
    intro hidle
    rw [hidle] at hresolving
    cases hresolving
  · rw [deliver_pending, hnone]
    exact fun _ hother => absurd hother List.not_mem_nil
  · rw [deliver_pending, hnone]
    exact fun _ _ _ _ hother => absurd hother List.not_mem_nil
  · intro other hother
    rcases deliver_events _ _ hother with rfl | hearlier
    · exact hsettles
    · have hempty : other ∈ s.bridge.events ++ s.batch := hearlier
      rw [hevents, hbatch] at hempty
      exact absurd hempty List.not_mem_nil
  · rw [deliver_phase]
    intro st hst
    have hstreaming : s.phase = .streaming st := hst
    rw [hstreaming] at hresolving
    cases hresolving

theorem ReadsFrom.complete (h : ReadsFrom handle s) (hpending : s.pending = before ++ op :: after)
    (hevent : op.onDone completion = some event) :
    ReadsFrom handle (deliver { s with pending := before ++ after } event) where
  asked := by
    rw [deliver_phase]
    exact h.asked
  opens other hother := by
    rw [deliver_pending] at hother
    exact h.opens other (mem_of_mem_rest hpending hother)
  reads handle' offset len seq hother := by
    rw [deliver_pending] at hother
    exact h.reads handle' offset len seq (mem_of_mem_rest hpending hother)
  events other hother := by
    rcases deliver_events _ _ hother with rfl | hearlier
    · refine onDone_settles hevent (h.opens op ?_)
      rw [hpending]
      exact List.mem_append_cons_self
    · exact h.events other hearlier
  streams st hst := by
    rw [deliver_phase] at hst
    exact h.streams st hst

end Complete

end Files

end EnvoyFiles.Filter
