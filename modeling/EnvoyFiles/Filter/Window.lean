import EnvoyFiles.Filter.Integrity
import EnvoyFiles.Filter.Progress

/-!
# The in-flight window and what a stream buffers

`max_inflight_reads` bounds the reads in flight.  The completed chunks that wait
in `ready` behind a missing one are not counted, so a read that is overtaken by
its successors lets the stream hold more than the window.  Where every pump that
still has reads to issue finds the completed chunks without a gap, they are all
sent before the window is refilled, and the window bounds the stream.
-/

namespace EnvoyFiles.Filter

open Transition

/-! ## The bytes a stream holds -/

/-- The requested length of a read. -/
def Op.readLen : Op → ℕ
  | .read _ _ len _ => len
  | _ => 0

/-- The length of a completed read. -/
def IoEvent.readLen : IoEvent → ℕ
  | .read _ (.ok data) => data.length
  | _ => 0

/-- Whether the chunk with a sequence number is read from the file. -/
def isFileAt (chunks : List Chunk) (seq : ℕ) : Bool :=
  chunks[seq]?.any Chunk.isFile

/-- The bytes of the completed file chunks in `ready`. -/
def bufferedBytes (chunks : List Chunk) (ready : Ready) : ℕ :=
  (ready.entries.map fun entry =>
    if isFileAt chunks entry.1 then entry.2.length else 0).sum

def Phase.readyBytes : Phase → ℕ
  | .streaming st => bufferedBytes st.chunks st.ready
  | _ => 0

/-- The bytes of the reads whose completion has not been handled: the requested
length at the engine, the buffer afterwards. -/
def State.inflightBytes (s : State) : ℕ :=
  (s.pending.map Op.readLen).sum + (s.bridge.events.map IoEvent.readLen).sum +
    (s.batch.map IoEvent.readLen).sum

/-- The file bytes held by the stream. -/
def State.heldBytes (s : State) : ℕ :=
  s.inflightBytes + s.phase.readyBytes

theorem sum_map_le_of_sublist {α : Type*} (f : α → ℕ) {xs ys : List α}
    (h : xs.Sublist ys) : (xs.map f).sum ≤ (ys.map f).sum := by
  induction h with
  | slnil => exact le_rfl
  | cons y _ ih =>
      rw [List.map_cons, List.sum_cons]
      exact ih.trans (Nat.le_add_left _ _)
  | cons_cons y _ ih =>
      rw [List.map_cons, List.map_cons, List.sum_cons, List.sum_cons]
      exact Nat.add_le_add_left ih _

section Buffers

variable (chunks : List Chunk) (ready : Ready) (seq : ℕ)

/-- Taking a chunk out of `ready` holds no more than before. -/
theorem bufferedBytes_erase :
    bufferedBytes chunks (ready.erase seq) ≤ bufferedBytes chunks ready :=
  sum_map_le_of_sublist _ (List.kerase_sublist _ _)

/-- A stored chunk adds at most its own bytes. -/
theorem bufferedBytes_insert (data : Bytes) :
    bufferedBytes chunks (ready.insert seq data) ≤
      data.length + bufferedBytes chunks ready := by
  rw [bufferedBytes]
  rw [AList.entries_insert, List.map_cons, List.sum_cons]
  refine Nat.add_le_add ?_ (sum_map_le_of_sublist _ (List.kerase_sublist _ _))
  split
  · exact le_rfl
  · exact Nat.zero_le _

variable {chunks ready}

/-- Without a file chunk in `ready` nothing is buffered. -/
theorem bufferedBytes_eq_zero
    (h : ∀ seq ∈ ready, isFileAt chunks seq = false) :
    bufferedBytes chunks ready = 0 := by
  rw [bufferedBytes]
  refine List.sum_eq_zero fun bytes hbytes => ?_
  obtain ⟨entry, hentry, rfl⟩ := List.mem_map.mp hbytes
  have hkey : entry.1 ∈ ready := List.mem_map_of_mem hentry
  rw [h _ hkey, if_neg Bool.false_ne_true]

/-- The inline chunks are not read from the file. -/
theorem bufferedBytes_inlineReady (chunks : List Chunk) :
    bufferedBytes chunks (inlineReady 0 chunks) = 0 := by
  refine bufferedBytes_eq_zero fun seq hseq => ?_
  rw [← AList.lookup_isSome, lookup_inlineReady, if_pos (Nat.zero_le seq),
    Nat.sub_zero] at hseq
  rw [isFileAt]
  rcases hget : chunks[seq]? with _ | chunk
  · rfl
  · rw [hget] at hseq
    cases chunk with
    | inline bytes => rfl
    | file offset len => cases hseq

end Buffers

theorem readyBytes_withDepth (phase : Phase) (depth : ℕ) :
    (phase.withDepth depth).readyBytes = phase.readyBytes := by
  cases phase <;> rfl

theorem heldBytes_onHook (s : State) (hook : Hook) :
    (s.onHook hook).heldBytes = s.heldBytes := by
  obtain ⟨depth, commits, -, heq⟩ := onHook_eq s hook
  rw [heq, State.heldBytes, readyBytes_withDepth]
  rfl

/-- A send and the hooks it fires hold nothing more. -/
theorem heldBytes_send (s : State) (call : Call) :
    (s.send call).heldBytes = s.heldBytes := by
  obtain ⟨depth, commits, -, heq⟩ := send_eq s call
  rw [heq, State.heldBytes, readyBytes_withDepth]
  rfl

/-! ## A batch of reads -/

/-- A successful read of the chunk `seq`. -/
def IoEvent.stores (seq : ℕ) : IoEvent → Bool
  | .read other (.ok _) => other == seq
  | _ => false

/-- The stream after the successful reads of a batch have been stored. -/
structure Stored (events : List IoEvent) (st st' : Streaming) : Prop where
  chunks : st'.chunks = st.chunks
  nextSend : st'.nextSend = st.nextSend
  issueCursor : st'.issueCursor = st.issueCursor
  watermarkDepth : st'.watermarkDepth = st.watermarkDepth
  ready : ∀ seq, seq ∈ st'.ready ↔
    seq ∈ st.ready ∨ ∃ event ∈ events, event.stores seq = true

theorem Stored.refl (st : Streaming) : Stored [] st st where
  chunks := rfl
  nextSend := rfl
  issueCursor := rfl
  watermarkDepth := rfl
  ready seq := by simp

theorem Stored.trans {first rest : List IoEvent} {st st' st'' : Streaming}
    (h : Stored first st st') (h' : Stored rest st' st'') :
    Stored (first ++ rest) st st'' where
  chunks := h'.chunks.trans h.chunks
  nextSend := h'.nextSend.trans h.nextSend
  issueCursor := h'.issueCursor.trans h.issueCursor
  watermarkDepth := h'.watermarkDepth.trans h.watermarkDepth
  ready seq := by
    rw [h'.ready, h.ready, or_assoc]
    simp only [List.mem_append, or_and_right, exists_or]

/-- One stored read. -/
theorem stored_read (st : Streaming) (inflight seq : ℕ) (data : Bytes) :
    Stored [.read seq (.ok data)] st
      { st with inflight, ready := st.ready.insert seq data } where
  chunks := rfl
  nextSend := rfl
  issueCursor := rfl
  watermarkDepth := rfl
  ready other := by
    have hstores : (∃ event ∈ [IoEvent.read seq (.ok data)],
        event.stores other = true) ↔ other = seq := by
      simp only [List.mem_singleton, exists_eq_left, IoEvent.stores, beq_iff_eq]
      exact eq_comm
    rw [AList.mem_insert, hstores, or_comm]

section Batches

variable {crates : Crates} {cfg : Config} {s t : State}

theorem heldBytes_batch {event : IoEvent} {rest : List IoEvent}
    (hbatch : s.batch = event :: rest) :
    s.heldBytes = event.readLen + { s with batch := rest }.heldBytes := by
  simp only [State.heldBytes, State.inflightBytes, hbatch, List.map_cons,
    List.sum_cons]
  omega

/-- A handled read moves its buffer into `ready` or drops it. -/
theorem handleRead_held (s : State) (seq : ℕ) (result : ReadResult) :
    (handleRead s seq result).1.heldBytes ≤
      (IoEvent.read seq result).readLen + s.heldBytes := by
  rw [handleRead]
  split
  · next st hphase =>
      cases result with
      | ok data =>
          have hstore := bufferedBytes_insert st.chunks st.ready seq data
          simp only [State.heldBytes, State.inflightBytes, State.setPhase,
            hphase, Phase.readyBytes, IoEvent.readLen]
          omega
      | error error =>
          have hdone : (s.setPhase .done).heldBytes ≤ s.heldBytes :=
            Nat.add_le_add_left (Nat.zero_le _) _
          exact (heldBytes_send _ _).le.trans (hdone.trans (Nat.le_add_left _ _))
  · exact Nat.le_add_left _ _

theorem handleRead_complete (s : State) (seq : ℕ) (result : ReadResult) :
    (handleRead s seq result).1.complete = s.complete := by
  rw [handleRead]
  split
  · cases result with
    | ok data => rfl
    | error error => exact send_complete _ _
  · rfl

theorem handleRead_stored {seq : ℕ} {result : ReadResult} {st' : Streaming}
    (h : (handleRead s seq result).1.phase = .streaming st') :
    ∃ st, s.phase = .streaming st ∧ Stored [.read seq result] st st' := by
  rw [handleRead] at h
  split at h
  · next st hphase =>
      cases result with
      | ok data =>
          cases h
          exact ⟨st, hphase, stored_read st _ seq data⟩
      | error error =>
          have hdone := send_done (s := s.setPhase .done)
            (.sendResponseData .handleRead [] true) rfl
          cases hdone.symm.trans h
  · next hphase => exact absurd h (hphase st')

/-- Handling a batch of reads holds no more bytes than before, and a stream
that goes on has stored the batch. -/
theorem handleBatch_reads {events : List IoEvent} {ended : Bool}
    (hreads : ∀ event ∈ events, event.isRead = true) (hbatch : s.batch = events)
    (h : handleBatch crates cfg events s = some (t, ended)) :
    t.heldBytes ≤ s.heldBytes ∧ t.complete = s.complete ∧
      ∀ st', t.phase = .streaming st' →
        ended = false → ∃ st, s.phase = .streaming st ∧ Stored events st st' := by
  induction events generalizing s with
  | nil =>
      cases h
      exact ⟨le_rfl, rfl, fun st' hst _ => ⟨st', hst, Stored.refl st'⟩⟩
  | cons event rest ih =>
      obtain ⟨⟨u, stop⟩, hevent, h⟩ := Option.bind_eq_some_iff.mp h
      cases event with
      | read seq result =>
          have hu : handleRead { s with batch := rest } seq result = (u, stop) :=
            Option.some.inj hevent
          have hheld : u.heldBytes ≤ s.heldBytes := by
            have hread := handleRead_held { s with batch := rest } seq result
            rw [hu] at hread
            exact hread.trans (heldBytes_batch hbatch).ge
          have hcomplete : u.complete = s.complete := by
            have hread := handleRead_complete { s with batch := rest } seq result
            rw [hu] at hread
            exact hread
          cases stop with
          | true =>
              cases h
              refine ⟨le_trans ?_ hheld, hcomplete, nofun⟩
              exact Nat.add_le_add_right
                (Nat.add_le_add_left (Nat.zero_le _) _) _
          | false =>
              have hempty : u.batch = rest := by
                have hhandled : Handled crates cfg Env.any s u rest false :=
                  handleEvent_handled hbatch hevent
                exact hhandled.batch
              obtain ⟨hle, hcomplete', hstored⟩ := ih
                (fun event hevent => hreads event (List.mem_cons_of_mem _ hevent))
                hempty h
              refine ⟨hle.trans hheld, hcomplete'.trans hcomplete,
                fun st' hst hended => ?_⟩
              obtain ⟨st₁, hst₁, hrest⟩ := hstored st' hst hended
              obtain ⟨st, hst, hfirst⟩ : ∃ st, s.phase = .streaming st ∧
                  Stored [.read seq result] st st₁ := by
                have hread :
                    (handleRead { s with batch := rest } seq result).1.phase =
                      .streaming st₁ := by
                  rw [hu]
                  exact hst₁
                exact handleRead_stored (s := { s with batch := rest }) hread
              exact ⟨st, hst, hfirst.trans hrest⟩
      | _ => cases hreads _ List.mem_cons_self

end Batches

/-! ## The pump -/

/-- The stream after the flush loop has sent the chunks up to its new
`next_send`. -/
structure Flushed (st st' : Streaming) : Prop where
  chunks : st'.chunks = st.chunks
  issueCursor : st'.issueCursor = st.issueCursor
  nextSend : st.nextSend ≤ st'.nextSend
  ready : ∀ seq, seq ∈ st'.ready ↔
    seq ∈ st.ready ∧ (seq < st.nextSend ∨ st'.nextSend ≤ seq)

theorem Flushed.refl (st : Streaming) : Flushed st st where
  chunks := rfl
  issueCursor := rfl
  nextSend := le_rfl
  ready seq := (and_iff_left (Nat.lt_or_ge seq st.nextSend)).symm

theorem Flushed.trans {st st' st'' : Streaming} (h : Flushed st st')
    (h' : Flushed st' st'') : Flushed st st'' where
  chunks := h'.chunks.trans h.chunks
  issueCursor := h'.issueCursor.trans h.issueCursor
  nextSend := h.nextSend.trans h'.nextSend
  ready seq := by
    have hle := h.nextSend
    have hle' := h'.nextSend
    rw [h'.ready, h.ready, and_assoc]
    refine and_congr_right fun _ => ?_
    omega

/-- One send, with the depth its hooks leave. -/
theorem flushed_advance (st : Streaming) (depth : ℕ) :
    Flushed st { st.advance with watermarkDepth := depth } where
  chunks := rfl
  issueCursor := rfl
  nextSend := Nat.le_succ _
  ready seq := by
    show seq ∈ st.ready.erase st.nextSend ↔ _ ∧ (_ ∨ st.nextSend + 1 ≤ seq)
    rw [AList.mem_erase, and_comm]
    refine and_congr_right fun _ => ?_
    omega

theorem flush_flushed (fuel : ℕ) (s : State) :
    (flush fuel s).1.heldBytes ≤ s.heldBytes ∧
      (flush fuel s).1.complete = s.complete ∧
      ∀ st', (flush fuel s).1.phase = .streaming st' →
        ∃ st, s.phase = .streaming st ∧ Flushed st st' := by
  induction fuel generalizing s with
  | zero => exact ⟨le_rfl, rfl, fun st' hst => ⟨st', hst, Flushed.refl st'⟩⟩
  | succ fuel ih =>
      rw [flush]
      split
      · next st hphase =>
          have hself : s.heldBytes ≤ s.heldBytes ∧ s.complete = s.complete ∧
              ∀ st', s.phase = .streaming st' →
                ∃ st, s.phase = .streaming st ∧ Flushed st st' :=
            ⟨le_rfl, rfl, fun st' hst => ⟨st', hst, Flushed.refl st'⟩⟩
          split
          · split
            · split
              · next bytes _ _ =>
                  refine ⟨?_, send_complete _ _, ?_⟩
                  · have hdone : (s.setPhase .done).heldBytes ≤ s.heldBytes :=
                      Nat.add_le_add_left (Nat.zero_le _) _
                    exact (heldBytes_send _ _).le.trans hdone
                  · intro st' hst
                    have hdone := send_done (s := s.setPhase .done)
                      (.sendResponseData .pump bytes true) rfl
                    cases hdone.symm.trans hst
              · next bytes _ _ =>
                  obtain ⟨hheld, hcomplete, hflushed⟩ := ih ((s.setPhase
                    (.streaming st.advance)).send (.sendResponseData .pump bytes false))
                  refine ⟨?_, hcomplete.trans (send_complete _ _), ?_⟩
                  · refine hheld.trans ((heldBytes_send _ _).le.trans ?_)
                    simp only [State.heldBytes, hphase]
                    exact Nat.add_le_add_left (bufferedBytes_erase _ _ _) _
                  · intro st' hst
                    obtain ⟨st₁, hst₁, hrest⟩ := hflushed st' hst
                    obtain ⟨depth, hsend⟩ := send_phase
                      (s.setPhase (.streaming st.advance))
                      (.sendResponseData .pump bytes false)
                    cases hsend.symm.trans hst₁
                    exact ⟨st, hphase, (flushed_advance st depth).trans hrest⟩
            · exact hself
          · exact hself
      · next hphase => exact ⟨le_rfl, rfl, fun st' hst => absurd hst (hphase st')⟩

/-- Nothing is sent or issued while the stream is paused. -/
theorem pump_paused {cfg : Config} {s : State} {st : Streaming}
    (hphase : s.phase = .streaming st) (hdepth : st.watermarkDepth ≠ 0) :
    pump cfg s = some s := by
  have hflush : flush (flushFuel s) s = (s, false) := by
    simp only [flushFuel, hphase]
    rw [flush]
    simp only [hphase, if_neg hdepth]
  rw [pump, hflush]

/-- Without file chunks the issue loop asks for nothing. -/
theorem issueLoop_inline (maxInflight : ℕ) (ready : Ready) (chunks : List Chunk)
    (cursor inflight : ℕ) (hinline : ∀ chunk ∈ chunks, chunk.isFile = false) :
    (issueLoop maxInflight ready chunks cursor inflight).2.2 = [] := by
  induction chunks generalizing cursor with
  | nil => rfl
  | cons chunk rest ih =>
      have hrest := ih (cursor + 1) fun chunk hchunk =>
        hinline chunk (List.mem_cons_of_mem _ hchunk)
      simp only [issueLoop]
      split
      · split
        · exact hrest
        · cases chunk with
          | inline bytes => exact hrest
          | file offset len => cases hinline _ List.mem_cons_self
      · rfl

theorem submitReads_complete (handle : FileHandle) (requests : List ReadRequest)
    (s : State) : (submitReads handle requests s).complete = s.complete := by
  rw [submitReads]
  induction requests generalizing s with
  | nil => rfl
  | cons request requests ih => exact ih _

/-- What the issue loop leaves of a stream. -/
theorem issueReads_ready {cfg : Config} {s t : State} {st : Streaming}
    (hphase : s.phase = .streaming st) (h : issueReads cfg s = some t) :
    (∃ st', t.phase = .streaming st' ∧ st'.chunks = st.chunks ∧
        st'.ready = st.ready) ∧
      t.complete = s.complete ∧
      ((∀ chunk ∈ st.chunks.drop st.issueCursor, chunk.isFile = false) →
        t.heldBytes = s.heldBytes) := by
  rw [issueReads] at h
  split at h
  · simp only [hphase] at h
    cases h
    refine ⟨?_, submitReads_complete _ _ _, fun hinline => ?_⟩
    · rw [submitReads_phase]
      exact ⟨_, rfl, rfl, rfl⟩
    · rw [issueLoop_inline _ _ _ _ _ hinline, State.heldBytes, State.heldBytes,
        hphase]
      rfl
  · cases h

/-! ## Arrival in order -/

/-- The chunk `seq` is in `ready` or will be once the queued events are
stored. -/
def Streaming.Arrived (st : Streaming) (events : List IoEvent) (seq : ℕ) : Prop :=
  seq ∈ st.ready ∨ ∃ event ∈ events, event.stores seq = true

/-- The file chunks that have arrived follow the last sent chunk without a
gap. -/
def Streaming.Gapless (st : Streaming) (events : List IoEvent) : Prop :=
  ∀ seq < st.chunks.length, isFileAt st.chunks seq = true → st.Arrived events seq →
    st.nextSend ≤ seq ∧
      ∀ earlier < seq, st.nextSend ≤ earlier → st.Arrived events earlier

/-- A wakeup that does not refill the window while chunks wait behind a missing
one: the stream is paused, has no reads left to issue, or has all its chunks in
order. -/
def Streaming.InOrder (st : Streaming) (events : List IoEvent) : Prop :=
  st.watermarkDepth ≠ 0 ∨
    (∀ chunk ∈ st.chunks.drop st.issueCursor, chunk.isFile = false) ∨
    st.Gapless events

/-- The actions that find the completed chunks in order. -/
def ArrivesInOrder (s : State) : Action → Prop
  | .scheduled _ => ∀ st, s.phase = .streaming st → st.InOrder s.bridge.events
  | _ => True

theorem isFileAt_lt {chunks : List Chunk} {seq : ℕ}
    (h : isFileAt chunks seq = true) : seq < chunks.length := by
  by_contra hge
  rw [isFileAt, List.getElem?_eq_none (by omega)] at h
  cases h

/-- Storing the queued events keeps the order. -/
theorem Stored.inOrder {events : List IoEvent} {st st' : Streaming}
    (h : Stored events st st') (horder : st.InOrder events) : st'.InOrder [] := by
  have harrived (seq : ℕ) : st'.Arrived [] seq ↔ st.Arrived events seq := by
    simp [Streaming.Arrived, h.ready]
  rw [Streaming.InOrder, Streaming.Gapless] at *
  simp only [harrived, h.chunks, h.nextSend, h.issueCursor, h.watermarkDepth]
  exact horder

/-- After a flush up to a missing chunk, no file chunk of an ordered stream is
left behind. -/
theorem Flushed.nothing_ready {st st' : Streaming} (h : Flushed st st')
    (hgapless : st.Gapless []) (hmissing : st'.nextSend ∉ st'.ready) :
    bufferedBytes st'.chunks st'.ready = 0 := by
  rw [h.chunks]
  refine bufferedBytes_eq_zero fun seq hready => ?_
  by_contra hfile
  rw [Bool.not_eq_false] at hfile
  obtain ⟨hmem, hside⟩ := (h.ready seq).mp hready
  obtain ⟨hunsent, hearlier⟩ := hgapless seq (isFileAt_lt hfile) hfile (Or.inl hmem)
  have hne : seq ≠ st'.nextSend := by
    rintro rfl
    exact hmissing hready
  rcases hearlier st'.nextSend (by omega) h.nextSend with hnext | ⟨event, hevent, -⟩
  · exact hmissing ((h.ready _).mpr ⟨hnext, Or.inr le_rfl⟩)
  · cases hevent

section Pump

variable {crates : Crates} {cfg : Config} {s t : State}

/-- A pump that finds the chunks in order holds no more than before, or nothing
but the reads in flight. -/
theorem pump_inOrder {st : Streaming} (hphase : s.phase = .streaming st)
    (horder : st.InOrder []) (h : pump cfg s = some t) :
    t.heldBytes ≤ s.heldBytes ∨ t.complete = s.complete ∧
      t.phase.isStreaming = true ∧ t.phase.readyBytes = 0 := by
  by_cases hdepth : st.watermarkDepth = 0
  · have hpos : 0 < flushFuel s := by
      rw [flushFuel]
      split <;> omega
    have hfuel : ∀ st, s.phase = .streaming st →
        st.ready.entries.length < flushFuel s := by
      intro st hphase
      simp [flushFuel, hphase]
    have hstops := flush_stops (flushFuel s) s hpos hfuel
    obtain ⟨hheld, hcomplete, hflushed⟩ := flush_flushed (flushFuel s) s
    rw [pump] at h
    split at h
    · next u hu =>
        rw [hu] at hstops hheld hcomplete hflushed
        obtain ⟨hfalse, -⟩ | ⟨-, st₁, hst₁, -, hmissing⟩ := hstops
        · cases hfalse
        · obtain ⟨st₀, hst₀, hflush⟩ := hflushed st₁ hst₁
          cases hphase.symm.trans hst₀
          obtain ⟨⟨st', hst', hchunks, hready⟩, hissue, hnothing⟩ :=
            issueReads_ready hst₁ h
          rcases horder with hpaused | hinline | hgapless
          · exact absurd hdepth hpaused
          · left
            rw [← hflush.chunks, ← hflush.issueCursor] at hinline
            exact (hnothing hinline).le.trans hheld
          · right
            have hzero := hflush.nothing_ready hgapless hmissing
            rw [← hchunks, ← hready] at hzero
            rw [hst']
            exact ⟨hissue.trans hcomplete, rfl, hzero⟩
    · next u hu =>
        rw [hu] at hheld
        cases h
        exact Or.inl hheld
  · rw [pump_paused hphase hdepth] at h
    cases h
    exact Or.inl le_rfl

end Pump

end EnvoyFiles.Filter
