import EnvoyFiles.Filter.Accounting
import EnvoyFiles.Filter.Chunks

/-!
# No stream stalls

Between callbacks a stream that is not done waits for something that will come:
an engine operation, a queued event or commit, or the end of a pause.  For a
resolving filter this is the accounting invariant.  For a streaming one it is
the work of `pump`: what it leaves unsent below its issue cursor is in `ready`
or in flight, and it stops issuing only at the in-flight limit or at the end of
the chunk list.
-/

namespace EnvoyFiles.Filter

/-! ## The chunks behind the issue cursor -/

/-- The chunks between the two cursors are ready or awaited, and the inline
ones are ready. -/
structure Streaming.Covered (st : Streaming) (work : Multiset Ticket) : Prop where
  unsent : st.nextSend < st.chunks.length
  inline : ∀ seq bytes, st.nextSend ≤ seq →
    st.chunks[seq]? = some (.inline bytes) → seq ∈ st.ready
  issued : ∀ seq, st.nextSend ≤ seq → seq < st.issueCursor →
    seq ∈ st.ready ∨ .read seq ∈ work

theorem covered_initial (handle : FileHandle) {chunks : List Chunk}
    (prefetched : Bytes) (work : Multiset Ticket) (hchunks : chunks ≠ []) :
    (initialStreaming handle chunks prefetched).Covered work where
  unsent := List.length_pos_iff.mpr hchunks
  inline _ _ _ hinline := inline_mem_seedPrefetch hinline
  issued _ _ hseq := absurd hseq (Nat.not_lt_zero _)

section Covered

variable {st : Streaming} {work : Multiset Ticket}

theorem Streaming.Covered.withDepth (h : st.Covered work) (depth : ℕ) :
    { st with watermarkDepth := depth }.Covered work :=
  ⟨h.unsent, h.inline, h.issued⟩

/-- Sending a chunk that is not the last keeps the chunks behind it. -/
theorem Streaming.Covered.advance (h : st.Covered work)
    (hlast : st.nextSend ≠ st.chunks.length - 1) : st.advance.Covered work where
  unsent := by
    have hunsent := h.unsent
    show st.nextSend + 1 < st.chunks.length
    omega
  inline seq bytes hseq hinline := by
    have hne : seq ≠ st.nextSend := by
      rintro rfl
      exact Nat.not_succ_le_self _ hseq
    exact AList.mem_erase.mpr ⟨hne, h.inline seq bytes (Nat.le_of_succ_le hseq) hinline⟩
  issued seq hseq hissued := by
    have hne : seq ≠ st.nextSend := by
      rintro rfl
      exact Nat.not_succ_le_self _ hseq
    rcases h.issued seq (Nat.le_of_succ_le hseq) hissued with hready | hwork
    · exact Or.inl (AList.mem_erase.mpr ⟨hne, hready⟩)
    · exact Or.inr hwork

/-- A stored read leaves the work and enters `ready`. -/
theorem Streaming.Covered.store {seq : ℕ} (h : st.Covered (.read seq ::ₘ work))
    (inflight : ℕ) (data : Bytes) :
    { st with inflight, ready := st.ready.insert seq data }.Covered work where
  unsent := h.unsent
  inline other bytes hother hinline :=
    (AList.mem_insert _).mpr (Or.inr (h.inline other bytes hother hinline))
  issued other hother hissued := by
    rcases h.issued other hother hissued with hready | hwork
    · exact Or.inl ((AList.mem_insert _).mpr (Or.inr hready))
    · rcases Multiset.mem_cons.mp hwork with heq | hwork
      · cases heq
        exact Or.inl ((AList.mem_insert _).mpr (Or.inl rfl))
      · exact Or.inr hwork

/-- The issue cursor passes a chunk that is ready, inline or requested. -/
theorem Streaming.Covered.issue (h : st.Covered work) (inflight : ℕ)
    {work' : Multiset Ticket} (hwork : work ≤ work')
    (hchunk : st.issueCursor ∈ st.ready ∨
      (∃ bytes, st.chunks[st.issueCursor]? = some (.inline bytes)) ∨
      .read st.issueCursor ∈ work') :
    { st with issueCursor := st.issueCursor + 1, inflight }.Covered work' where
  unsent := h.unsent
  inline := h.inline
  issued seq hseq hissued := by
    rcases Nat.lt_succ_iff_lt_or_eq.mp hissued with hlt | rfl
    · rcases h.issued seq hseq hlt with hready | hmem
      · exact Or.inl hready
      · exact Or.inr (Multiset.mem_of_le hwork hmem)
    · rcases hchunk with hready | ⟨bytes, hinline⟩ | hmem
      · exact Or.inl hready
      · exact Or.inl (h.inline _ bytes hseq hinline)
      · exact Or.inr hmem

end Covered

/-- While callbacks can run, the chunks of a stream are covered. -/
def Covers (s : State) : Prop :=
  s.complete = false → ∀ st, s.phase = .streaming st → st.Covered s.work

/-- A filter that waits for events has set its waker, and a queued event has a
commit under way. -/
structure Woken (s : State) : Prop where
  waker : s.phase.isResolving = true ∨ s.phase.isStreaming = true →
    s.waker = true
  commit : s.bridge.events ≠ [] → 0 < s.delivering + s.commits

section Moves

variable {crates : Crates} {cfg : Config} {env : Env} {s t : State}

theorem covers_move (hmove : Move crates cfg env s t) (haccount : Accounted cfg s)
    (h : Covers s) : Covers t := by
  have hnone : ∀ u : State, u.phase.isStreaming = false → Covers u := by
    intro u hphase _ st hst
    rw [hst] at hphase
    cases hphase
  cases hmove with
  | reentry reentry => exact h
  | hook hook =>
      obtain ⟨depth, commits, -, heq⟩ := onHook_eq s hook
      intro hcomplete st hst
      rw [work_onHook]
      rw [heq] at hcomplete hst
      cases hphase : s.phase with
      | streaming st' =>
          rw [hphase] at hst
          cases hst
          exact (h hcomplete st' hphase).withDepth depth
      | _ => rw [hphase] at hst; cases hst
  | refuse _ _ _ => exact hnone _ rfl
  | accept _ _ _ => exact hnone _ rfl
  | complete hpending _ hevent =>
      intro hcomplete st hst
      rw [deliver_complete] at hcomplete
      rw [deliver_phase] at hst
      rw [haccount.complete_work hpending hevent hcomplete]
      exact h hcomplete st hst
  | commit _ => exact h
  | drain hbatch _ =>
      intro hcomplete st hst
      rw [work_drain hbatch]
      exact h hcomplete st hst
  | openNext _ _ _ hnext => exact hnone _ (by cases hnext <;> rfl)
  | readDir path hbatch hread =>
      obtain ⟨hphase, -⟩ := haccount.opening hbatch hread
      exact hnone _ (not_streaming_of_resolving hphase)
  | respond _ _ _ _ _ => exact hnone _ rfl
  | sendHeaders _ _ _ => exact hnone _ rfl
  | beginStreaming _ _ _ _ hchunks =>
      intro _ st hst
      cases hst
      exact covered_initial _ _ _ hchunks
  | readOk hbatch hphase =>
      intro hcomplete st hst
      cases hst
      have hcovered := h hcomplete _ hphase
      rw [work_cons hbatch] at hcovered
      exact hcovered.store _ _
  | readError _ _ => exact hnone _ rfl
  | ignore hbatch hstream hresolve =>
      have hdone := haccount.ignored hbatch hstream hresolve
      exact hnone _ (congrArg Phase.isStreaming hdone)
  | discard hphase => exact hnone _ (congrArg Phase.isStreaming hphase)
  | flushMore hphase _ _ hlast =>
      intro hcomplete st hst
      cases hst
      exact (h hcomplete _ hphase).advance hlast
  | flushLast _ _ _ _ => exact hnone _ rfl
  | issueSkip hphase _ hchunk hready =>
      intro hcomplete st hst
      cases hst
      apply (h hcomplete _ hphase).issue _ le_rfl
      rcases hready with hready | ⟨bytes, rfl⟩
      · exact Or.inl hready
      · exact Or.inr (Or.inl ⟨bytes, hchunk⟩)
  | issueRead hphase _ _ _ =>
      intro hcomplete st hst
      cases hst
      rw [work_submit, work_setPhase]
      apply (h hcomplete _ hphase).issue _ (Multiset.le_cons_self _ _)
      exact Or.inr (Or.inr (Multiset.mem_cons_self _ _))
  | streamComplete _ => exact nofun

theorem woken_asleep (hresolving : t.phase.isResolving = false)
    (hstreaming : t.phase.isStreaming = false)
    (hcommit : t.bridge.events ≠ [] → 0 < t.delivering + t.commits) : Woken t := by
  refine ⟨fun hphase => ?_, hcommit⟩
  rw [hresolving, hstreaming] at hphase
  cases hphase <;> contradiction

theorem woken_move (hmove : Move crates cfg env s t) (haccount : Accounted cfg s)
    (h : Woken s) : Woken t := by
  cases hmove with
  | reentry reentry => exact ⟨h.waker, h.commit⟩
  | hook hook =>
      obtain ⟨depth, commits, hcommits, heq⟩ := onHook_eq s hook
      rw [heq]
      refine ⟨fun hphase => h.waker ?_, fun hevents => ?_⟩
      · cases hs : s.phase with
        | streaming st => exact Or.inr rfl
        | _ => simpa [hs, Phase.withDepth] using hphase
      · exact (h.commit hevents).trans_le (Nat.add_le_add_left hcommits _)
  | refuse _ _ _ => exact woken_asleep rfl rfl h.commit
  | accept _ _ _ => exact ⟨fun _ => rfl, h.commit⟩
  | @complete before after op completion event _ _ _ =>
      obtain ⟨bridge, delivering, heq, ⟨-, -, -, hcount⟩ | ⟨-, hclosed, -⟩⟩ :=
        deliver_eq { s with pending := before ++ after } event
      · rw [heq]
        refine ⟨h.waker, fun _ => ?_⟩
        show 0 < delivering + s.commits
        rw [hcount]
        omega
      · rw [heq]
        refine ⟨h.waker, fun hevents => ?_⟩
        exact absurd (congrArg EventBridge.Inner.events hclosed) hevents
  | commit hdelivering =>
      refine ⟨h.waker, fun _ => ?_⟩
      show 0 < s.delivering - 1 + (s.commits + 1)
      omega
  | drain _ _ => exact ⟨h.waker, fun hevents => absurd rfl hevents⟩
  | openNext _ _ hwaker _ => exact ⟨fun _ => hwaker, h.commit⟩
  | readDir _ _ _ => exact ⟨h.waker, h.commit⟩
  | respond _ _ _ _ _ => exact woken_asleep rfl rfl h.commit
  | sendHeaders _ _ _ => exact woken_asleep rfl rfl h.commit
  | beginStreaming hbatch _ _ _ _ =>
      obtain ⟨hphase, -⟩ := haccount.opening hbatch rfl
      exact ⟨fun _ => h.waker (Or.inl hphase), h.commit⟩
  | readOk _ hphase =>
      exact ⟨fun _ => h.waker (Or.inr (congrArg Phase.isStreaming hphase)), h.commit⟩
  | readError _ _ => exact woken_asleep rfl rfl h.commit
  | ignore _ _ _ => exact ⟨h.waker, h.commit⟩
  | discard _ => exact ⟨h.waker, h.commit⟩
  | flushMore hphase _ _ _ =>
      exact ⟨fun _ => h.waker (Or.inr (congrArg Phase.isStreaming hphase)), h.commit⟩
  | flushLast _ _ _ _ => exact woken_asleep rfl rfl h.commit
  | issueSkip hphase _ _ _ =>
      exact ⟨fun _ => h.waker (Or.inr (congrArg Phase.isStreaming hphase)), h.commit⟩
  | issueRead hphase _ _ _ =>
      exact ⟨fun _ => h.waker (Or.inr (congrArg Phase.isStreaming hphase)), h.commit⟩
  | streamComplete _ => exact ⟨h.waker, fun hevents => absurd rfl hevents⟩

end Moves

/-! ## What the pump leaves -/

theorem length_erase_ready {ready : Ready} {seq : ℕ} (h : seq ∈ ready) :
    (ready.erase seq).entries.length + 1 = ready.entries.length := by
  have hkeys : (ready.erase seq).keys.length = ready.keys.length - 1 := by
    rw [AList.keys_erase, List.length_erase_of_mem h]
  have hpos : 0 < ready.keys.length := List.length_pos_of_mem h
  simp only [AList.keys, List.keys, List.length_map] at hkeys hpos
  omega

/-- A phase in which the flush loop may not send. -/
def Phase.Paused (phase : Phase) : Prop :=
  ∀ st, phase = .streaming st → st.watermarkDepth ≠ 0

/-- A stream whose next chunk is not there yet. -/
def Phase.Starved (phase : Phase) : Prop :=
  ∃ st, phase = .streaming st ∧ st.watermarkDepth = 0 ∧ st.nextSend ∉ st.ready

/-- With fuel for every entry of `ready`, the flush loop stops only where it
may not send or has nothing to send. -/
theorem flush_stops (fuel : ℕ) (s : State) (hpos : 0 < fuel)
    (hfuel : ∀ st, s.phase = .streaming st → st.ready.entries.length < fuel) :
    ((flush fuel s).2 = false ∧ (flush fuel s).1.phase.Paused) ∨
      ((flush fuel s).2 = true ∧ (flush fuel s).1.phase.Starved) := by
  induction fuel generalizing s with
  | zero => exact absurd hpos (Nat.lt_irrefl 0)
  | succ fuel ih =>
      rw [flush]
      split
      · next st hphase =>
          split
          · next hdepth =>
              split
              · next bytes hready =>
                  have hmem : st.nextSend ∈ st.ready := by
                    rw [← AList.lookup_isSome, hready]
                    rfl
                  have hlength := length_erase_ready hmem
                  have hentries := hfuel st hphase
                  split
                  · refine Or.inl ⟨rfl, fun st' hst => ?_⟩
                    have hdone := send_done (s := s.setPhase .done)
                      (.sendResponseData .pump bytes true) rfl
                    cases hdone.symm.trans hst
                  · refine ih _ (by omega) fun st' hst => ?_
                    obtain ⟨depth, hsend⟩ := send_phase
                      (s.setPhase (.streaming st.advance))
                      (.sendResponseData .pump bytes false)
                    cases hsend.symm.trans hst
                    show (st.ready.erase st.nextSend).entries.length < fuel
                    omega
              · next hready =>
                  exact Or.inr ⟨rfl, st, hphase, hdepth,
                    AList.lookup_eq_none.mp hready⟩
          · next hdepth =>
              refine Or.inl ⟨rfl, fun st' hst => ?_⟩
              cases hphase.symm.trans hst
              exact hdepth
      · next hphase => exact Or.inl ⟨rfl, fun st hst => absurd hst (hphase st)⟩

/-- The issue loop stops below the limit only at the end of the chunks. -/
theorem issueLoop_exhausted (maxInflight : ℕ) (ready : Ready)
    (chunks : List Chunk) (cursor inflight : ℕ)
    (h : (issueLoop maxInflight ready chunks cursor inflight).2.1 < maxInflight) :
    (issueLoop maxInflight ready chunks cursor inflight).1 =
      cursor + chunks.length := by
  induction chunks generalizing cursor inflight with
  | nil => rfl
  | cons chunk chunks ih =>
      simp only [issueLoop] at h ⊢
      split
      · next hroom =>
          rw [if_pos hroom] at h
          split
          · next hready =>
              rw [if_pos hready] at h
              rw [ih _ _ h, List.length_cons]
              omega
          · next hready =>
              rw [if_neg hready] at h
              cases chunk with
              | inline bytes =>
                  rw [ih _ _ h, List.length_cons]
                  omega
              | file offset len =>
                  simp only [ih _ _ h, List.length_cons]
                  omega
      · next hroom =>
          rw [if_neg hroom] at h
          exact absurd h hroom

/-- A stream at depth 0 has a commit coming or work outstanding. -/
def Settled (s : State) : Prop :=
  s.complete = false → ∀ st, s.phase = .streaming st → st.watermarkDepth = 0 →
    0 < s.delivering + s.commits ∨ s.work ≠ 0

theorem submitReads_phase (handle : FileHandle) (requests : List ReadRequest)
    (s : State) : (submitReads handle requests s).phase = s.phase := by
  rw [submitReads]
  induction requests generalizing s with
  | nil => rfl
  | cons request requests ih => exact ih _

section Pump

variable {crates : Crates} {cfg : Config} {env : Env} {s t : State}

/-- The accounts and the covering of the chunks, along any number of moves. -/
theorem covers_moves (hmoves : Moves crates cfg env s t)
    (haccount : Accounted cfg s) (hcovers : Covers s) :
    Accounted cfg t ∧ Covers t := by
  refine Transition.closure_invariant (I := fun s => Accounted cfg s ∧ Covers s)
    hmoves ?_ ⟨haccount, hcovers⟩
  rintro u v hmove ⟨haccount, hcovers⟩
  exact ⟨accounted_move hmove haccount, covers_move hmove haccount hcovers⟩

/-- A starved stream has a read in flight after the issue loop. -/
theorem issueReads_settled (hmax : 1 ≤ cfg.maxInflightReads)
    (haccount : Accounted cfg s) (hcovers : Covers s)
    (hstarved : s.phase.Starved) (h : issueReads cfg s = some t) : Settled t := by
  obtain ⟨st, hphase, -, hmissing⟩ := hstarved
  obtain ⟨hmoves, -⟩ : Moves Crates.plain cfg Env.any s t ∧ _ := issueReads_moves h
  obtain ⟨haccount', hcovers'⟩ := covers_moves hmoves haccount hcovers
  rw [issueReads] at h
  split at h
  · simp only [hphase] at h
    cases h
    intro hactive st' hst _
    have hcovered := hcovers' hactive st' hst
    have hbalanced := haccount'.balanced hactive
    rw [hst] at hbalanced
    rw [submitReads_phase] at hst
    cases hst
    refine Or.inr fun hwork => ?_
    rw [hwork] at hbalanced hcovered
    have hempty : 0 = (issueLoop cfg.maxInflightReads st.ready
        (st.chunks.drop st.issueCursor) st.issueCursor st.inflight).2.1 :=
      hbalanced.2
    have hroom := hempty.symm.le.trans_lt hmax
    have hcursor := issueLoop_exhausted cfg.maxInflightReads st.ready
      (st.chunks.drop st.issueCursor) st.issueCursor st.inflight hroom
    have hunsent : st.nextSend < st.chunks.length := hcovered.unsent
    rcases hcovered.issued st.nextSend le_rfl (by
      simp only [hcursor, List.length_drop]
      omega) with hready | hmem
    · exact hmissing hready
    · exact absurd hmem (Multiset.notMem_zero _)
  · cases h

theorem pump_settled (hmax : 1 ≤ cfg.maxInflightReads)
    (haccount : Accounted cfg s) (hcovers : Covers s)
    (h : pump cfg s = some t) : Settled t := by
  have hfuel : ∀ st, s.phase = .streaming st →
      st.ready.entries.length < flushFuel s := by
    intro st hphase
    simp [flushFuel, hphase]
  have hpos : 0 < flushFuel s := by
    rw [flushFuel]
    split <;> omega
  obtain ⟨hmoves, -⟩ :
      Moves Crates.plain cfg Env.any s (flush (flushFuel s) s).1 ∧ _ :=
    flush_moves (flushFuel s) s
  obtain ⟨haccount', hcovers'⟩ := covers_moves hmoves haccount hcovers
  have hstops := flush_stops (flushFuel s) s hpos hfuel
  rw [pump] at h
  split at h
  · next u hu =>
      rw [hu] at hstops haccount' hcovers'
      rcases hstops with ⟨hfalse, -⟩ | ⟨-, hstarved⟩
      · cases hfalse
      · exact issueReads_settled hmax haccount' hcovers' hstarved h
  · next u hu =>
      rw [hu] at hstops
      cases h
      rcases hstops with ⟨-, hpaused⟩ | ⟨htrue, -⟩
      · exact fun _ st hst hdepth => absurd hdepth (hpaused st hst)
      · cases htrue

end Pump

/-! ## Between callbacks -/

section Steps

variable {crates : Crates} {cfg : Config} {env : Env} {s t : State}
  {action : Action}

theorem settled_of_not_streaming (hphase : s.phase.isStreaming = false) :
    Settled s := by
  intro _ st hst
  rw [hst] at hphase
  cases hphase

/-- After a hook a stream is paused or has a commit coming. -/
theorem onHook_settled (hwoken : Woken s) (hook : Hook) :
    Settled (s.onHook hook) := by
  cases hphase : s.phase with
  | streaming st =>
      cases hook with
      | above =>
          intro _ st' hst hdepth
          simp only [State.onHook, onAboveHighWatermark, State.record, hphase,
            State.setPhase] at hst
          cases hst
          exact absurd hdepth (Nat.succ_ne_zero _)
      | below =>
          intro _ st' hst hdepth
          have hwaker := hwoken.waker (Or.inr (congrArg Phase.isStreaming hphase))
          simp only [State.onHook, onBelowLowWatermark, State.record, hphase,
            State.setPhase] at hst ⊢
          split at hst
          · next hresume =>
              left
              rw [if_pos hresume]
              exact Nat.add_pos_right _ (Nat.succ_pos _)
          · next hstill =>
              cases hst
              exact absurd ⟨hdepth, hwaker⟩ hstill
  | _ =>
      apply settled_of_not_streaming
      obtain ⟨depth, commits, -, heq⟩ := onHook_eq s hook
      rw [heq, hphase]
      rfl

/-- Every action leaves the stream settled. -/
theorem step_settled (hmax : 1 ≤ cfg.maxInflightReads)
    (haccount : Accounted cfg s) (hcovers : Covers s) (hwoken : Woken s)
    (hbatch : s.batch = []) (hsettled : Settled s)
    (h : step crates cfg s action = some t) : Settled t := by
  cases action with
  | requestHeaders headers reentry =>
      simp only [step] at h
      split at h
      · next hphase _ =>
          obtain ⟨-, -, hstream⟩ :
              Moves crates cfg Env.any { s with reentry } t ∧ _ :=
            onRequestHeaders_moves hphase trivial h
          exact settled_of_not_streaming hstream
      · cases h
  | complete index completion =>
      obtain ⟨before, op, after, event, hsplit, -, hevent, rfl⟩ :=
        completeOp_cases h
      intro hactive st hst hdepth
      rw [deliver_complete] at hactive
      rw [deliver_phase] at hst
      rw [haccount.complete_work hsplit hevent hactive]
      rcases hsettled hactive st hst hdepth with hcommit | hwork
      · left
        obtain ⟨bridge, delivering, heq, ⟨-, -, -, hcount⟩ | ⟨hclosed, -, -⟩⟩ :=
          deliver_eq { s with pending := before ++ after } event
        · rw [heq]
          show 0 < delivering + s.commits
          rw [hcount]
          omega
        · exact absurd hclosed (haccount.bridge hactive)
      · exact Or.inr hwork
  | commit =>
      simp only [step] at h
      split at h
      · cases h
      · cases h
        intro _ _ _ _
        left
        show 0 < s.delivering - 1 + (s.commits + 1)
        omega
  | scheduled reentry =>
      simp only [step] at h
      split at h
      · cases h
      · next hcomplete =>
          obtain ⟨u, hmoves, -, ⟨hphase, rfl⟩ | hpump⟩ :
              ∃ u, Moves crates cfg Env.any { s with reentry } u ∧ _ :=
            onScheduled_cases hbatch (by simpa using hcomplete) h
          · exact settled_of_not_streaming hphase
          · obtain ⟨haccount', hcovers'⟩ := covers_moves hmoves
              ⟨haccount.bridge, haccount.balanced, haccount.batch, haccount.window⟩
              hcovers
            exact pump_settled hmax haccount' hcovers' hpump
  | hook hook =>
      simp only [step] at h
      split at h
      · cases h
      · cases h
        exact onHook_settled hwoken hook
  | streamComplete =>
      simp only [step] at h
      split at h
      · cases h
      · cases h
        intro hactive
        cases hactive

end Steps

/-! ## The liveness of runs -/

/-- Submitted reads whose completion has not been handled. -/
def State.outstandingReads (s : State) : ℕ :=
  s.pending.countP Op.isRead + s.bridge.events.countP IoEvent.isRead +
    s.batch.countP IoEvent.isRead

theorem outstandingReads_eq_card {s : State} (h : .opening ∉ s.work) :
    s.outstandingReads = s.work.card := by
  have hops : s.pending.countP Op.isRead = s.pending.length := by
    refine List.countP_eq_length.mpr fun op hop => ?_
    have hne : op.ticket ≠ .opening := by
      rintro heq
      refine h (Multiset.mem_add.mpr (Or.inl (Multiset.mem_add.mpr (Or.inl ?_))))
      exact List.mem_map.mpr ⟨op, hop, heq⟩
    cases op with
    | read handle offset len seq => rfl
    | _ => exact absurd rfl hne
  have hevents : ∀ events : List IoEvent,
      (∀ event ∈ events, event.ticket ≠ .opening) →
        events.countP IoEvent.isRead = events.length := by
    intro events hevents
    refine List.countP_eq_length.mpr fun event hevent => ?_
    have hne := hevents event hevent
    cases event with
    | read seq result => rfl
    | _ => exact absurd rfl hne
  have hbridge := hevents s.bridge.events fun event hevent heq =>
    h (Multiset.mem_add.mpr (Or.inl (Multiset.mem_add.mpr
      (Or.inr (List.mem_map.mpr ⟨event, hevent, heq⟩)))))
  have hbatch := hevents s.batch fun event hevent heq =>
    h (Multiset.mem_add.mpr (Or.inr (List.mem_map.mpr ⟨event, hevent, heq⟩)))
  simp [State.outstandingReads, State.work, hops, hbridge, hbatch, Nat.add_assoc]

/-- Outside the callbacks, work is at the engine or in the bridge. -/
theorem pending_or_events {s : State} (hbatch : s.batch = [])
    (hwork : s.work ≠ 0) : s.pending ≠ [] ∨ s.bridge.events ≠ [] := by
  by_contra hnone
  push Not at hnone
  exact hwork (work_eq_zero_iff.mpr ⟨hnone.1, hnone.2, hbatch⟩)

/-- What a filter that is not done waits for. -/
def Awaits (s : State) : Prop :=
  s.phase = .done ∨ s.pending ≠ [] ∨ s.bridge.events ≠ [] ∨
    0 < s.delivering + s.commits ∨
    ∃ st, s.phase = .streaming st ∧ 0 < st.watermarkDepth

section Runs

variable {crates : Crates} {cfg : Config} {env : Env} {s t : State}
  {actions : List Action}

/-- The invariant of the states between callbacks. -/
structure Live (cfg : Config) (s : State) : Prop where
  account : Accounted cfg s
  covers : Covers s
  woken : Woken s
  settled : Settled s
  batch : s.batch = []

theorem live_initial (cfg : Config) : Live cfg State.initial where
  account := accounted_initial cfg
  covers := nofun
  woken := ⟨nofun, nofun⟩
  settled := nofun
  batch := rfl

theorem live_run (hmax : 1 ≤ cfg.maxInflightReads)
    (hrun : StreamRun crates cfg env State.initial actions s) : Live cfg s := by
  apply hrun.invariant (live_initial cfg)
  intro u action v hlive hok hnext
  obtain ⟨hmoves, hbatch⟩ := step_moves hlive.batch hok hnext
  obtain ⟨haccount, hcovers⟩ := covers_moves hmoves hlive.account hlive.covers
  have hwoken : Accounted cfg v ∧ Woken v := by
    refine Transition.closure_invariant
      (I := fun s => Accounted cfg s ∧ Woken s) hmoves ?_
      ⟨hlive.account, hlive.woken⟩
    rintro u v hmove ⟨haccount, hwoken⟩
    exact ⟨accounted_move hmove haccount, woken_move hmove haccount hwoken⟩
  have hsettled := step_settled hmax hlive.account hlive.covers hlive.woken
    hlive.batch hlive.settled hnext
  exact ⟨haccount, hcovers, hwoken.2, hsettled, hbatch⟩

theorem Live.awaits (h : Live cfg s) (hactive : s.complete = false)
    (hphase : s.phase ≠ .idle) : Awaits s := by
  have hbalanced := h.account.balanced hactive
  have hopening (hwork : s.work = {.opening}) : Awaits s := by
    have hne : s.work ≠ 0 := by
      rw [hwork]
      exact Multiset.singleton_ne_zero _
    rcases pending_or_events h.batch hne with hpending | hevents
    · exact Or.inr (Or.inl hpending)
    · exact Or.inr (Or.inr (Or.inl hevents))
  cases hs : s.phase with
  | idle => exact absurd hs hphase
  | resolvingFile pending =>
      rw [hs] at hbalanced
      exact hopening hbalanced
  | resolvingIndex dirFs pending =>
      rw [hs] at hbalanced
      exact hopening hbalanced
  | streaming st =>
      by_cases hdepth : st.watermarkDepth = 0
      · rcases h.settled hactive st hs hdepth with hcommit | hwork
        · exact Or.inr (Or.inr (Or.inr (Or.inl hcommit)))
        · rcases pending_or_events h.batch hwork with hpending | hevents
          · exact Or.inr (Or.inl hpending)
          · exact Or.inr (Or.inr (Or.inl hevents))
      · exact Or.inr (Or.inr (Or.inr (Or.inr
          ⟨st, hs, Nat.pos_of_ne_zero hdepth⟩)))
  | done => exact Or.inl hs

/-- The stream's completion drops queued events, but their commits are still
under way. -/
theorem Live.awaits_complete (h : Live cfg s) (hactive : s.complete = false)
    (hphase : s.phase ≠ .idle) : Awaits (onStreamComplete s) := by
  rcases h.awaits hactive hphase with hdone | hpending | hevents | hrest
  · exact Or.inl hdone
  · exact Or.inr (Or.inl hpending)
  · exact Or.inr (Or.inr (Or.inr (Or.inl (h.woken.commit hevents))))
  · exact Or.inr (Or.inr (Or.inr hrest))

/-- No stream stalls, and the in-flight counter counts the reads that are in
flight: its subtraction never saturates, and it never exceeds the window. -/
theorem stream_never_stalls (hmax : 1 ≤ cfg.maxInflightReads)
    (hrun : StreamRun crates cfg env State.initial actions s)
    (hcallback : s.complete = true →
      ∃ earlier, actions = earlier ++ [.streamComplete])
    (hphase : s.phase ≠ .idle) :
    Awaits s ∧
      (s.bridge.events ≠ [] → 0 < s.delivering + s.commits) ∧
      (s.complete = false → ∀ st, s.phase = .streaming st →
        st.inflight = s.outstandingReads ∧
          st.inflight ≤ cfg.maxInflightReads) ∧
      ∀ u seq result rest st, Moves crates cfg env s u →
        u.batch = .read seq result :: rest → u.phase = .streaming st →
          0 < st.inflight := by
  have hlive := live_run hmax hrun
  refine ⟨?_, hlive.woken.commit, fun hactive st hst => ?_, ?_⟩
  · cases hcomplete : s.complete with
    | false => exact hlive.awaits hcomplete hphase
    | true =>
        obtain ⟨earlier, rfl⟩ := hcallback hcomplete
        obtain ⟨u, v, hearlier, -, hnext, hlast⟩ := hrun.split_middle
        cases hlast
        simp only [step] at hnext
        split at hnext
        · cases hnext
        · next hactive =>
            cases hnext
            exact (live_run hmax hearlier).awaits_complete (by simpa using hactive)
              hphase
  · have hbalanced := hlive.account.balanced hactive
    rw [hst] at hbalanced
    refine ⟨?_, hlive.account.window st hst⟩
    rw [outstandingReads_eq_card hbalanced.1, hbalanced.2]
  · intro u seq result rest st hmoves hbatch hst
    obtain ⟨haccount, -⟩ := covers_moves hmoves hlive.account hlive.covers
    have hcard := (haccount.read hbatch hst).2
    omega

end Runs

/-- A file of two chunks, opened but not prefetched, after the first pump. -/
def twoChunkRun : Option State :=
  replay Crates.plain (Config.defaults ⟨"/srv"⟩) State.initial
    [.requestHeaders (getHeaders "/a") [],
      .complete 0 (.openStat (.ok (⟨1⟩, ⟨70000, 0, 0, false⟩, []))),
      .commit, .scheduled []]

theorem stream_never_stalls_two_chunks :
    ∃ s, twoChunkRun = some s ∧ s.outstandingReads = 2 ∧ Awaits s := by
  have hfacts : twoChunkRun.map
      (fun s => (s.outstandingReads, s.phase.isStreaming, s.complete)) =
      some (2, true, false) := by decide
  obtain ⟨s, hs, hfacts⟩ := Option.map_eq_some_iff.mp hfacts
  obtain ⟨hreads, hstream, hactive⟩ : _ ∧ _ ∧ _ := by simpa using hfacts
  refine ⟨s, hs, hreads, (stream_never_stalls (by decide)
    (Transition.Run.of_foldlM any_allows hs) ?_ ?_).1⟩
  · exact fun hcomplete => absurd (hactive.symm.trans hcomplete) nofun
  · exact fun hidle => absurd ((congrArg Phase.isStreaming hidle).symm.trans hstream)
      nofun

end EnvoyFiles.Filter
