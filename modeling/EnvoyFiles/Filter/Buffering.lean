import EnvoyFiles.Filter.Window

/-!
# The window bounds what a stream buffers

Between callbacks the stream holds its reads in flight and the file chunks in
`ready`.  Handling reads and sending chunks does not add to them, and a pump
that finds the chunks in order leaves only the reads in flight, which the window
bounds.
-/

namespace EnvoyFiles.Filter

open Transition

/-! ## Lengths of reads -/

/-- The engine's contract: a read returns at most the requested number of
bytes, or fails. -/
def boundedReads : Env where
  requests _ := True
  completes _ op completion :=
    match op, completion with
    | .read _ _ len _, .read (.ok data) => data.length ≤ len
    | _, _ => True

/-- A completed read holds no more than was requested. -/
theorem readLen_onDone {s : State} {op : Op} {completion : Completion}
    {event : IoEvent} (hok : boundedReads.completes s op completion)
    (hevent : op.onDone completion = some event) :
    event.readLen ≤ op.readLen := by
  cases event with
  | read seq result =>
      obtain ⟨handle, offset, len, rfl, rfl⟩ := onDone_read hevent
      cases result with
      | ok data => exact hok
      | error error => exact Nat.zero_le _
  | _ => exact Nat.zero_le _

theorem fileChunksLoop_le (chunkSize fuel offset stop : ℕ) :
    ∀ chunk ∈ fileChunksLoop chunkSize fuel offset stop, ∀ start len,
      chunk = .file start len → len ≤ chunkSize := by
  induction fuel generalizing offset with
  | zero => exact fun chunk hchunk => absurd hchunk List.not_mem_nil
  | succ fuel ih =>
      intro chunk hchunk start len heq
      rw [fileChunksLoop] at hchunk
      split at hchunk
      · rcases List.mem_cons.mp hchunk with rfl | hrest
        · cases heq
          exact Nat.min_le_right _ _
        · exact ih _ chunk hrest start len heq
      · cases hchunk

/-- No file chunk of a body is longer than `chunk_size`. -/
theorem bodyChunks_le {cfg : Config} {body : BodyPlan} {offset len : ℕ}
    (h : .file offset len ∈ bodyChunks cfg body) : len ≤ cfg.chunkSize := by
  cases body with
  | empty => cases h
  | whole total => exact fileChunksLoop_le _ _ _ _ _ h _ _ rfl
  | segments ranges =>
      obtain ⟨range, -, hchunk⟩ := List.mem_flatMap.mp h
      exact fileChunksLoop_le _ _ _ _ _ hchunk _ _ rfl
  | multipart parts terminator total =>
      rcases List.mem_append.mp h with hparts | hlast
      · obtain ⟨part, -, hchunk⟩ := List.mem_flatMap.mp hparts
        rcases List.mem_cons.mp hchunk with hheader | hchunk
        · cases hheader
        · exact fileChunksLoop_le _ _ _ _ _ hchunk _ _ rfl
      · cases List.mem_singleton.mp hlast

/-- The states of a body: the accounts balance and no read is longer than
`chunk_size`. -/
structure Windowed (cfg : Config) (chunks : List Chunk) (s : State) : Prop where
  account : Accounted cfg s
  delivering : Delivering (fun _ _ => True) chunks s
  pending : ∀ op ∈ s.pending, op.readLen ≤ cfg.chunkSize
  events : ∀ event ∈ s.bridge.events ++ s.batch, event.readLen ≤ cfg.chunkSize

section Runs

variable {crates : Crates} {cfg : Config} {body : BodyPlan} {s t : State}

theorem anything_supplied (env : Env) : env.Supplies fun _ _ => True :=
  fun _ _ _ _ _ _ _ _ _ _ => trivial

/-- What a window says depends on the operations and the events. -/
theorem Windowed.of_subset (h : Windowed cfg (bodyChunks cfg body) s)
    (haccount : Accounted cfg t)
    (hdelivering : Delivering (fun _ _ => True) (bodyChunks cfg body) t)
    (hpending : ∀ op ∈ t.pending, op ∈ s.pending)
    (hevents : ∀ event ∈ t.bridge.events ++ t.batch,
      event ∈ s.bridge.events ++ s.batch) :
    Windowed cfg (bodyChunks cfg body) t where
  account := haccount
  delivering := hdelivering
  pending op hop := h.pending op (hpending op hop)
  events event hevent := h.events event (hevents event hevent)

/-- Every move keeps the lengths. -/
theorem windowed_move (hmove : Move crates cfg boundedReads s t)
    (h : Windowed cfg (bodyChunks cfg body) s) :
    Windowed cfg (bodyChunks cfg body) t := by
  have haccount := accounted_move hmove h.account
  have hdelivering :=
    delivering_move (anything_supplied boundedReads) hmove h.account h.delivering
  -- A stream that is sending its body handles no open events.
  have hread {event : IoEvent} {rest : List IoEvent}
      (hbatch : s.batch = event :: rest) (hnot : event.isRead = false) : False := by
    have hyes := h.delivering.not_opening h.account hbatch
    exact absurd (hyes.symm.trans hnot) nofun
  have hidle (hphase : s.phase = .idle) : False := by
    have hsent := sentAs_phase h.delivering.sent
    rw [hphase] at hsent
    rcases hsent with hstream | hdone
    · cases hstream
    · cases hdone
  cases hmove with
  | hook hook =>
      obtain ⟨depth, commits, -, heq⟩ := onHook_eq s hook
      rw [heq] at haccount hdelivering ⊢
      exact h.of_subset haccount hdelivering (fun _ hop => hop) fun _ hevent => hevent
  | refuse _ _ hphase => exact (hidle hphase).elim
  | accept hphase _ _ => exact (hidle hphase).elim
  | @complete before after op completion event hpending hok hevent =>
      have hop : op ∈ s.pending := by
        rw [hpending]
        exact List.mem_append_cons_self
      have hkept : ∀ other ∈ before ++ after, other.readLen ≤ cfg.chunkSize := by
        intro other hother
        exact h.pending other (mem_of_mem_rest hpending hother)
      obtain ⟨bridge, delivering, heq, ⟨-, -, hevents, -⟩ | ⟨-, hclosed, -⟩⟩ :=
        deliver_eq { s with pending := before ++ after } event
      · rw [heq] at haccount hdelivering ⊢
        refine ⟨haccount, hdelivering, hkept, fun other hother => ?_⟩
        rw [hevents, List.append_assoc, List.mem_append, List.singleton_append,
          List.mem_cons] at hother
        rcases hother with hother | rfl | hother
        · exact h.events other (List.mem_append_left _ hother)
        · exact (readLen_onDone hok hevent).trans (h.pending op hop)
        · exact h.events other (List.mem_append_right _ hother)
      · rw [heq] at haccount hdelivering ⊢
        refine ⟨haccount, hdelivering, hkept, fun other hother => ?_⟩
        rw [hclosed] at hother
        exact h.events other (List.mem_append_right _ hother)
  | drain hbatch _ =>
      refine h.of_subset haccount hdelivering (fun _ hop => hop) fun event hevent => ?_
      rw [hbatch, List.append_nil]
      exact hevent
  | openNext hbatch hnot _ _ => exact (hread hbatch hnot).elim
  | readDir _ hbatch hnot => exact (hread hbatch hnot).elim
  | respond _ _ _ hbatch hnot => exact (hread hbatch hnot).elim
  | sendHeaders _ hbatch hnot => exact (hread hbatch hnot).elim
  | beginStreaming hbatch _ _ _ _ => exact (hread hbatch rfl).elim
  | readOk hbatch _ =>
      exact h.of_subset haccount hdelivering (fun _ hop => hop) fun _ => mem_events_of_rest hbatch
  | readError hbatch _ =>
      exact h.of_subset haccount hdelivering (fun _ hop => hop) fun _ => mem_events_of_rest hbatch
  | ignore hbatch _ _ =>
      exact h.of_subset haccount hdelivering (fun _ hop => hop) fun _ => mem_events_of_rest hbatch
  | discard _ =>
      refine h.of_subset haccount hdelivering (fun _ hop => hop) fun event hevent => ?_
      rw [List.append_nil] at hevent
      exact List.mem_append_left _ hevent
  | issueRead hphase _ hchunk _ =>
      refine ⟨haccount, hdelivering, fun op hop => ?_, h.events⟩
      rcases List.mem_append.mp hop with hop | hop
      · exact h.pending op hop
      · cases List.mem_singleton.mp hop
        rw [(h.delivering.streaming hphase).1] at hchunk
        exact bodyChunks_le (List.mem_of_getElem? hchunk)
  | streamComplete hbatch =>
      refine h.of_subset haccount hdelivering (fun _ hop => hop) fun event hevent => ?_
      exact List.mem_append_right _ hevent
  | _ => exact h.of_subset haccount hdelivering (fun _ hop => hop) fun _ hevent => hevent

/-- The reads in flight fit into the window. -/
theorem Windowed.inflightBytes_le (h : Windowed cfg (bodyChunks cfg body) s)
    (hactive : s.complete = false) (hstream : s.phase.isStreaming = true) :
    s.inflightBytes ≤ cfg.maxInflightReads * cfg.chunkSize := by
  obtain ⟨st, hphase⟩ : ∃ st, s.phase = .streaming st := by
    cases hphase : s.phase with
    | streaming st => exact ⟨st, rfl⟩
    | _ => rw [hphase] at hstream; cases hstream
  have hbalanced := h.account.balanced hactive
  rw [hphase] at hbalanced
  have hcard : s.pending.length + s.bridge.events.length + s.batch.length =
      st.inflight := by
    rw [← hbalanced.2]
    simp [State.work, Nat.add_assoc]
  have hwindow := h.account.window st hphase
  have hsum {α : Type} (f : α → ℕ) (xs : List α)
      (hle : ∀ x ∈ xs, f x ≤ cfg.chunkSize) :
      (xs.map f).sum ≤ xs.length * cfg.chunkSize := by
    have hmap := List.sum_le_card_nsmul (xs.map f) cfg.chunkSize (by simpa using hle)
    simpa using hmap
  have hpending := hsum Op.readLen s.pending h.pending
  have hbridge := hsum IoEvent.readLen s.bridge.events fun event hevent =>
    h.events event (List.mem_append_left _ hevent)
  have hbatch := hsum IoEvent.readLen s.batch fun event hevent =>
    h.events event (List.mem_append_right _ hevent)
  calc s.inflightBytes
      ≤ s.pending.length * cfg.chunkSize + s.bridge.events.length * cfg.chunkSize +
          s.batch.length * cfg.chunkSize :=
        Nat.add_le_add (Nat.add_le_add hpending hbridge) hbatch
    _ = st.inflight * cfg.chunkSize := by rw [← hcard, Nat.add_mul, Nat.add_mul]
    _ ≤ cfg.maxInflightReads * cfg.chunkSize := Nat.mul_le_mul_right _ hwindow

/-- The events of a body are completed reads. -/
theorem Windowed.reads (h : Windowed cfg (bodyChunks cfg body) s)
    (hactive : s.complete = false) :
    ∀ event ∈ s.bridge.events, event.isRead = true := by
  intro event hevent
  have hbalanced := h.account.balanced hactive
  have hopening : .opening ∉ s.work := by
    rcases sentAs_phase h.delivering.sent with hstream | hdone
    · cases hphase : s.phase with
      | streaming st =>
          rw [hphase] at hbalanced
          exact hbalanced.1
      | _ => rw [hphase] at hstream; cases hstream
    · rw [hdone] at hbalanced
      exact hbalanced
  by_contra hnot
  rw [Bool.not_eq_true] at hnot
  refine hopening (Multiset.mem_add.mpr (Or.inl (Multiset.mem_add.mpr (Or.inr ?_))))
  exact List.mem_map.mpr ⟨event, hevent, ticket_of_not_isRead hnot⟩

/-- A completion that is at most as long as the request holds no more than the
request did. -/
theorem completeOp_held {index : ℕ} {completion : Completion}
    (hok : ∀ op, s.pending[index]? = some op →
      boundedReads.completes s op completion)
    (h : completeOp s index completion = some t) : t.heldBytes ≤ s.heldBytes := by
  obtain ⟨before, op, after, event, hsplit, hop, hevent, rfl⟩ := completeOp_cases h
  have hlen := readLen_onDone (hok op hop) hevent
  obtain ⟨bridge, delivering, heq, ⟨-, -, hevents, -⟩ | ⟨hclosed, hbridge, -⟩⟩ :=
    deliver_eq { s with pending := before ++ after } event
  · rw [heq]
    simp only [State.heldBytes, State.inflightBytes, hsplit, hevents,
      List.map_append, List.map_cons, List.sum_append, List.sum_cons, List.map_nil,
      List.sum_nil]
    omega
  · rw [heq, hbridge]
    have hempty : s.bridge.events = [] := congrArg EventBridge.Inner.events hclosed
    simp only [State.heldBytes, State.inflightBytes, hsplit, hempty,
      List.map_append, List.map_cons, List.sum_append, List.sum_cons]
    show _ + (([] : List IoEvent).map IoEvent.readLen).sum + _ + _ ≤ _
    omega

/-- A wakeup that finds the chunks in order holds no more than before, or no
more than the window. -/
theorem onScheduled_held (hwindow : Windowed cfg (bodyChunks cfg body) s)
    (hbatch : s.batch = []) (hactive : s.complete = false)
    (horder : ∀ st, s.phase = .streaming st → st.InOrder s.bridge.events)
    (hafter : Windowed cfg (bodyChunks cfg body) t) {reentry : List (List Hook)}
    (h : onScheduled crates cfg { s with reentry, commits := s.commits - 1 } = some t) :
    t.heldBytes ≤ s.heldBytes ∨
      t.heldBytes ≤ cfg.maxInflightReads * cfg.chunkSize := by
  let u : State := { s with
    reentry, commits := s.commits - 1, bridge := .empty, batch := s.bridge.events }
  have hdrain : u.heldBytes = s.heldBytes := by
    simp only [u, State.heldBytes, State.inflightBytes, hbatch, List.map_nil,
      List.sum_nil]
    show _ + (([] : List IoEvent).map IoEvent.readLen).sum + _ + _ = _
    rw [List.map_nil, List.sum_nil, Nat.add_zero, Nat.add_zero]
  have hreads {v : State} {ended : Bool}
      (hv : handleBatch crates cfg s.bridge.events u = some (v, ended)) :=
    handleBatch_reads (hwindow.reads hactive) (s := u) rfl hv
  rw [onScheduled] at h
  simp only [EventBridge.process_fst, EventBridge.process_snd] at h
  split at h
  · cases h
  · next v hv =>
      cases h
      exact Or.inl ((hreads hv).1.trans hdrain.le)
  · next v hv =>
      obtain ⟨hheld, hcomplete, hstored⟩ := hreads hv
      split at h
      · next st' hst' =>
          obtain ⟨st, hst, hbatched⟩ := hstored st' hst' rfl
          have horder' := hbatched.inOrder (horder st hst)
          rcases pump_inOrder hst' horder' h with hle | ⟨hcomplete', hstream, hready⟩
          · exact Or.inl (hle.trans (hheld.trans hdrain.le))
          · right
            have hactive' : t.complete = false :=
              (hcomplete'.trans hcomplete).trans hactive
            have hinflight := hafter.inflightBytes_le hactive' hstream
            rwa [State.heldBytes, hready, Nat.add_zero]
      · cases h
        exact Or.inl (hheld.trans hdrain.le)

/-- Every action that finds the chunks in order keeps the bound. -/
theorem step_held {action : Action}
    (hwindow : Windowed cfg (bodyChunks cfg body) s) (hbatch : s.batch = [])
    (hok : boundedReads.allows s action) (horder : ArrivesInOrder s action)
    (hafter : Windowed cfg (bodyChunks cfg body) t)
    (h : step crates cfg s action = some t) :
    t.heldBytes ≤ s.heldBytes ∨
      t.heldBytes ≤ cfg.maxInflightReads * cfg.chunkSize := by
  cases action with
  | requestHeaders headers reentry =>
      simp only [step] at h
      split at h
      · next hphase _ =>
          have hsent := sentAs_phase hwindow.delivering.sent
          rw [hphase] at hsent
          rcases hsent with hstream | hdone
          · cases hstream
          · cases hdone
      · cases h
  | complete index completion => exact Or.inl (completeOp_held hok h)
  | commit =>
      simp only [step] at h
      split at h
      · cases h
      · cases h
        exact Or.inl le_rfl
  | scheduled reentry =>
      simp only [step] at h
      split at h
      · cases h
      · next hcomplete =>
          exact onScheduled_held hwindow hbatch (by simpa using hcomplete) horder
            hafter h
  | hook hook =>
      simp only [step] at h
      split at h
      · cases h
      · cases h
        exact Or.inl (heldBytes_onHook s hook).le
  | streamComplete =>
      simp only [step] at h
      split at h
      · cases h
      · cases h
        left
        have hdrop : 0 ≤ (s.bridge.events.map IoEvent.readLen).sum := Nat.zero_le _
        exact Nat.add_le_add_right
          (Nat.add_le_add_right (Nat.add_le_add_left hdrop _) _) _

end Runs

/-- `begin_streaming` starts with at most one chunk. -/
theorem bufferedBytes_initial (cfg : Config) (body : BodyPlan)
    (prefetched : Bytes) :
    bufferedBytes (bodyChunks cfg body) (seedPrefetch (bodyChunks cfg body)
      prefetched (inlineReady 0 (bodyChunks cfg body))) ≤ cfg.chunkSize := by
  have hinline := bufferedBytes_inlineReady (bodyChunks cfg body)
  generalize hchunks : bodyChunks cfg body = chunks at hinline ⊢
  simp only [seedPrefetch]
  split
  · next len rest =>
      split
      · next hlen =>
          have hfirst : .file 0 len ∈ bodyChunks cfg body := by
            rw [hchunks]
            exact List.mem_cons_self
          have hinsert := bufferedBytes_insert (.file 0 len :: rest)
            (inlineReady 0 (.file 0 len :: rest)) 0 prefetched
          rw [hinline, Nat.add_zero, hlen] at hinsert
          exact hinsert.trans (bodyChunks_le hfirst)
      · rw [hinline]
        exact Nat.zero_le _
  · rw [hinline]
    exact Nat.zero_le _

/-- Nothing is in flight when a body starts. -/
theorem work_executePlan (cfg : Config) (plan : ResponsePlan)
    (handle : FileHandle) (prefetched : Bytes) {w : State} (hfresh : Fresh w) :
    (executePlan cfg w plan handle prefetched).1.work = 0 := by
  have hsend (phase : Phase) (call : Call) : ((w.setPhase phase).send call).work = 0 := by
    rw [work_send]
    exact work_eq_zero_iff.mpr ⟨hfresh.pending, hfresh.events, hfresh.batch⟩
  rw [executePlan_eq]
  split
  · exact hsend _ _
  · exact hsend _ _

theorem heldBytes_executePlan {cfg : Config} {plan : ResponsePlan}
    {handle : FileHandle} {prefetched : Bytes} {w : State} (hfresh : Fresh w) :
    (executePlan cfg w plan handle prefetched).1.heldBytes ≤ cfg.chunkSize := by
  have hinflight : w.inflightBytes = 0 := by
    simp [State.inflightBytes, hfresh.pending, hfresh.events, hfresh.batch]
  have hheld (phase : Phase) :
      (w.setPhase phase).heldBytes = phase.readyBytes := by
    show w.inflightBytes + phase.readyBytes = phase.readyBytes
    rw [hinflight, Nat.zero_add]
  rw [executePlan_eq]
  split
  · rw [heldBytes_send, hheld]
    exact Nat.zero_le _
  · rw [heldBytes_send, hheld]
    exact bufferedBytes_initial cfg plan.body _

/-- In a run in which the chunks arrive in order wherever the window is
refilled, the stream holds no more than the window. -/
theorem ordered_arrival_bounds_buffering {crates : Crates} {cfg : Config}
    {plan : ResponsePlan} {handle : FileHandle} {prefetched : Bytes}
    {w s : State} {actions : List Action} (hmax : 1 ≤ cfg.maxInflightReads)
    (hfresh : Fresh w)
    (hrun : Run (step crates cfg)
      (fun s action => boundedReads.allows s action ∧ ArrivesInOrder s action)
      (executePlan cfg w plan handle prefetched).1 actions s) :
    s.heldBytes ≤ cfg.maxInflightReads * cfg.chunkSize := by
  let bound := cfg.maxInflightReads * cfg.chunkSize
  let start := (executePlan cfg w plan handle prefetched).1
  have hstart : Windowed cfg (bodyChunks cfg plan.body) start ∧
      start.batch = [] ∧ start.heldBytes ≤ bound := by
    obtain ⟨haccount, hdelivering, hbatch⟩ : Accounted cfg start ∧
        Delivering (fun _ _ => True) (bodyChunks cfg plan.body) start ∧
          start.batch = [] :=
      delivering_executePlan (anything_supplied boundedReads) hfresh
        (fun _ => trivial) trivial
    have hheld : start.heldBytes ≤ cfg.chunkSize := heldBytes_executePlan hfresh
    obtain ⟨hpending, hevents, -⟩ := work_eq_zero_iff.mp
      (work_executePlan cfg plan handle prefetched hfresh)
    refine ⟨⟨haccount, hdelivering, ?_, ?_⟩, hbatch,
      hheld.trans (Nat.le_mul_of_pos_left _ hmax)⟩
    · simp [start, hpending]
    · simp [start, hevents, hbatch]
  refine (hrun.invariant (I := fun s => Windowed cfg (bodyChunks cfg plan.body) s ∧
    s.batch = [] ∧ s.heldBytes ≤ bound) hstart ?_).2.2
  rintro u action v ⟨hwindow, hempty, hheld⟩ ⟨hok, horder⟩ hnext
  obtain ⟨hmoves, hempty'⟩ := step_moves hempty hok hnext
  have hwindow' := Transition.closure_invariant hmoves
    (fun _ _ hmove => windowed_move hmove) hwindow
  refine ⟨hwindow', hempty', ?_⟩
  rcases step_held hwindow hempty hok horder hwindow' hnext with hle | hle
  · exact hle.trans hheld
  · exact hle

instance (st : Streaming) (events : List IoEvent) (seq : ℕ) :
    Decidable (st.Arrived events seq) :=
  inferInstanceAs (Decidable (_ ∨ _))

instance (st : Streaming) (events : List IoEvent) : Decidable (st.Gapless events) :=
  inferInstanceAs (Decidable (∀ seq < st.chunks.length, _))

instance (st : Streaming) (events : List IoEvent) : Decidable (st.InOrder events) :=
  inferInstanceAs (Decidable (_ ∨ _))

/-- Two reads that complete in order, and the third that is issued then. -/
theorem ordered_arrival_bounds_buffering_two_bytes :
    ∃ s : State, s.heldBytes = 3 ∧
      s.heldBytes ≤ twoByteChunks.maxInflightReads * twoByteChunks.chunkSize := by
  have hrun : ∃ s, Run (step Crates.plain twoByteChunks)
      (fun s action => boundedReads.allows s action ∧ ArrivesInOrder s action)
      (executePlan twoByteChunks servingState (wholePlan 5) ⟨1⟩ []).1
      [.scheduled [], .complete 0 (.read (.ok [1, 2])), .scheduled []] s ∧
      s.heldBytes = 3 := by
    refine ⟨_, .cons ⟨trivial, ?_⟩ rfl (.cons ⟨?_, trivial⟩ rfl
      (.cons ⟨trivial, ?_⟩ rfl (.nil _))), rfl⟩
    · intro st hst
      cases hst
      decide
    · intro op hop
      have hread : Op.read ⟨1⟩ 0 2 0 = op := Option.some.inj hop
      rw [← hread]
      exact Nat.le_refl 2
    · intro st hst
      cases hst
      decide
  obtain ⟨s, hrun, hheld⟩ := hrun
  exact ⟨s, hheld, ordered_arrival_bounds_buffering (by decide) fresh_servingState hrun⟩

/-- The smallest chunks a configuration can hold. -/
def smallestChunks : Config :=
  { Config.defaults ⟨"/srv"⟩ with chunkSize := 4096 }

theorem smallestChunks_bounds : smallestChunks.StreamingBounds :=
  ⟨by decide, by decide, by decide, by decide⟩

/-- The second of four chunks arrives before the first.  It stays in `ready`
while the third is requested, so three chunks are held in a window of two. -/
theorem overtaken_read_exceeds_window :
    ¬∀ (cfg : Config) (facts : RequestFacts) (fileMeta : FileMeta)
        (plan : ResponsePlan) (actions : List Action) (s : State),
      cfg.StreamingBounds → planResponse Crates.plain facts fileMeta = some plan →
      StreamRun Crates.plain cfg boundedReads
        (executePlan cfg servingState plan ⟨1⟩ []).1 actions s →
      s.heldBytes ≤ cfg.maxInflightReads * cfg.chunkSize := by
  intro hbound
  obtain ⟨data, hdata⟩ : ∃ data : Bytes, data.length = 4096 :=
    ⟨List.replicate 4096 0, List.length_replicate⟩
  have hrun : ∃ s, StreamRun Crates.plain smallestChunks boundedReads
      (executePlan smallestChunks servingState (wholePlan 16384) ⟨1⟩ []).1
      [.scheduled [], .complete 1 (.read (.ok data)), .scheduled []] s ∧
      s.heldBytes = 8192 + (data.length + 0) := by
    refine ⟨_, .cons trivial rfl (.cons ?_ rfl (.cons trivial rfl (.nil _))), ?_⟩
    · intro op hop
      have hread : Op.read ⟨1⟩ 4096 4096 1 = op := Option.some.inj hop
      rw [← hread]
      exact hdata.le
    · exact Eq.refl (8192 + (data.length + 0))
  obtain ⟨s, hrun, hheld⟩ := hrun
  have hle := hbound smallestChunks plainFacts ⟨16384, 0, 0, false⟩ _ _ s
    smallestChunks_bounds (planResponse_plainFacts 16384) hrun
  rw [hheld, hdata] at hle
  exact absurd hle (by decide)

end EnvoyFiles.Filter
