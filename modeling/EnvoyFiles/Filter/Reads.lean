import EnvoyFiles.Filter.Backpressure
import EnvoyFiles.Filter.Buffering

/-!
# Which chunks are read

The issue loop passes over the chunks in `ready`, so that what is at hand is not
read again.  The flush loop runs before it and takes out what it sends: a chunk
that the prefetch has filled is sent, and forgotten, before the issue cursor
passes it.  It is then read a second time, unless it is the only chunk.
-/

namespace EnvoyFiles.Filter

open History Range Transition

/-! ## Submitted reads and sent chunks -/

/-- The chunk a read is submitted for. -/
def Call.readSeq : Call → Option ℕ
  | .read _ _ _ seq => some seq
  | _ => none

/-- The chunks for which reads have been submitted. -/
def submittedReads (trace : List Call) : List ℕ :=
  trace.filterMap Call.readSeq

/-- How many chunks `pump` has sent. -/
def sentChunks (trace : List Call) : ℕ :=
  trace.countP Call.isPumped

theorem submittedReads_other {call : Call} (trace : List Call)
    (hcall : call.readSeq = none) :
    submittedReads (trace ++ [call]) = submittedReads trace := by
  simp only [submittedReads]
  rw [List.filterMap_append, List.filterMap_cons, hcall, List.filterMap_nil,
    List.append_nil]

theorem submittedReads_read (trace : List Call) (handle : FileHandle)
    (offset len seq : ℕ) :
    submittedReads (trace ++ [.read handle offset len seq]) =
      submittedReads trace ++ [seq] :=
  List.filterMap_append

theorem sentChunks_other {call : Call} (trace : List Call)
    (hcall : call.isPumped = false) :
    sentChunks (trace ++ [call]) = sentChunks trace := by
  rw [sentChunks]
  rw [List.countP_append, List.countP_singleton, hcall]
  rfl

theorem sentChunks_pumped (trace : List Call) (data : Bytes) (endStream : Bool) :
    sentChunks (trace ++ [.sendResponseData .pump data endStream]) =
      sentChunks trace + 1 :=
  List.countP_append

/-- A response that waits for its file has submitted no reads. -/
theorem submittedReads_of_waiting {trace : List Call}
    (h : StageRun .waiting trace .waiting) : submittedReads trace = [] := by
  rw [submittedReads, List.filterMap_eq_nil_iff]
  intro call hcall
  cases call with
  | read handle offset len seq =>
      obtain ⟨before, after, rfl⟩ := List.append_of_mem hcall
      obtain ⟨u, v, -, -, hnext, hafter⟩ := h.split_middle
      cases u with
      | body =>
          cases hnext
          exact absurd (stageRun_waiting hafter) nofun
      | _ => cases hnext
  | _ => rfl

/-- In every run a file is served before any read is submitted. -/
theorem unread_of_opening {cfg : Config} {s : State} {event : IoEvent}
    {rest : List IoEvent} (haccount : Accounted cfg s) (hobeys : Obeys s)
    (hbatch : s.batch = event :: rest) (hread : event.isRead = false) :
    submittedReads s.trace = [] := by
  obtain ⟨hphase, -⟩ := haccount.opening hbatch hread
  rw [Obeys] at hobeys
  rw [stage_of_resolving hphase] at hobeys
  exact submittedReads_of_waiting hobeys

/-! ## What it means to read sparingly -/

/-- The prefetch of the open holds chunk 0. -/
def HoldsFirst (chunks : List Chunk) (held : Bytes) : Prop :=
  ∃ rest, chunks = .file 0 held.length :: rest

/-- No read is needless: a chunk is read at most once, chunk 0 not at all if the
prefetch holds it, and what has been sent is neither read nor kept. -/
structure ReadsSparingly (chunks : List Chunk) (held : Bytes) (s : State) : Prop where
  once : (submittedReads s.trace).Nodup
  satisfied : HoldsFirst chunks held → 0 ∉ submittedReads s.trace
  ahead : Always (fun before call =>
    ∀ seq, call.readSeq = some seq → sentChunks before ≤ seq) s.trace
  /-- `next_send` is the number of chunks sent. -/
  counted : ∀ st, s.phase = .streaming st → st.nextSend = sentChunks s.trace
  swept : ∀ st, s.phase = .streaming st → ∀ seq ∈ st.ready, st.nextSend ≤ seq

/-- A whole file that is longer than one chunk and whose first chunk the
prefetch holds. -/
def RereadsPrefetch (cfg : Config) (body : BodyPlan) (prefetched : Bytes) : Prop :=
  0 < cfg.maxInflightReads ∧ ∃ len, body = .whole len ∧ cfg.chunkSize < len ∧
    prefetched.length = cfg.chunkSize

/-! ## The invariant of a body without needless reads -/

/-- The chunks of a stream between its two cursors. -/
structure Streaming.Spares (cfg : Config) (held : Bytes) (trace : List Call)
    (work : Multiset Ticket) (st : Streaming) : Prop where
  counted : st.nextSend = sentChunks trace
  issued : ∀ seq ∈ submittedReads trace, seq < st.issueCursor
  single : work.Nodup
  waiting : ∀ seq, Ticket.read seq ∈ work →
    st.nextSend ≤ seq ∧ seq ∉ st.ready ∧ seq < st.issueCursor
  swept : ∀ seq ∈ st.ready, st.nextSend ≤ seq
  stored : ∀ seq ∈ st.ready, isFileAt st.chunks seq = true →
    seq < st.issueCursor ∨ (HoldsFirst st.chunks held ∧ seq = 0)
  passed : 0 < cfg.maxInflightReads → ∀ seq < st.nextSend,
    isFileAt st.chunks seq = true → seq < st.issueCursor
  kept : 0 < cfg.maxInflightReads → HoldsFirst st.chunks held → 0 ∈ st.ready

structure Spares (cfg : Config) (chunks : List Chunk) (held : Bytes) (s : State) :
    Prop where
  once : (submittedReads s.trace).Nodup
  satisfied : HoldsFirst chunks held → 0 ∉ submittedReads s.trace
  ahead : Always (fun before call =>
    ∀ seq, call.readSeq = some seq → sentChunks before ≤ seq) s.trace
  stream : ∀ st, s.phase = .streaming st →
    st.chunks = chunks ∧ st.Spares cfg held s.trace s.work

section Streams

variable {cfg : Config} {held : Bytes} {trace : List Call} {work work' : Multiset Ticket}
  {st : Streaming}

/-- Calls that neither send nor read, and work that is dropped, change
nothing. -/
theorem Streaming.Spares.of_le (h : st.Spares cfg held trace work) {trace' : List Call}
    (hsent : sentChunks trace' = sentChunks trace)
    (hreads : submittedReads trace' = submittedReads trace) (hwork : work' ≤ work) :
    st.Spares cfg held trace' work' where
  counted := hsent ▸ h.counted
  issued := hreads ▸ h.issued
  single := Multiset.nodup_of_le hwork h.single
  waiting seq hseq := h.waiting seq (Multiset.mem_of_le hwork hseq)
  swept := h.swept
  stored := h.stored
  passed := h.passed
  kept := h.kept

theorem Streaming.Spares.withDepth (h : st.Spares cfg held trace work) (depth : ℕ) :
    { st with watermarkDepth := depth }.Spares cfg held trace work :=
  ⟨h.counted, h.issued, h.single, h.waiting, h.swept, h.stored, h.passed, h.kept⟩

/-- A completed read is stored ahead of what has been sent. -/
theorem Streaming.Spares.store {seq : ℕ}
    (h : st.Spares cfg held trace (Ticket.read seq ::ₘ work))
    (inflight : ℕ) (data : Bytes) :
    { st with inflight, ready := st.ready.insert seq data }.Spares cfg held trace
      work := by
  obtain ⟨hfresh, hsingle⟩ := Multiset.nodup_cons.mp h.single
  obtain ⟨hahead, -, hissued⟩ := h.waiting seq (Multiset.mem_cons_self _ _)
  have hmem {other : ℕ} : other ∈ st.ready.insert seq data ↔
      other = seq ∨ other ∈ st.ready := AList.mem_insert _
  refine ⟨h.counted, h.issued, hsingle, fun other hother => ?_, fun other hother => ?_,
    fun other hother hfile => ?_, h.passed, fun hroom hholds => ?_⟩
  · obtain ⟨hother', hready, hlt⟩ := h.waiting other (Multiset.mem_cons_of_mem hother)
    refine ⟨hother', fun hin => ?_, hlt⟩
    rcases hmem.mp hin with rfl | hin
    · exact hfresh hother
    · exact hready hin
  · rcases hmem.mp hother with rfl | hother
    · exact hahead
    · exact h.swept other hother
  · rcases hmem.mp hother with rfl | hother
    · exact Or.inl hissued
    · exact h.stored other hother hfile
  · exact hmem.mpr (Or.inr (h.kept hroom hholds))

/-- A chunk that is not the last is sent. -/
theorem Streaming.Spares.advance (h : st.Spares cfg held trace work) {data : Bytes}
    (hready : st.nextSend ∈ st.ready) (hlast : st.nextSend ≠ st.chunks.length - 1)
    (honly : 0 < cfg.maxInflightReads → HoldsFirst st.chunks held → st.chunks.length = 1) :
    st.advance.Spares cfg held (trace ++ [.sendResponseData .pump data false])
      work := by
  have hmem {other : ℕ} : other ∈ st.advance.ready ↔
      other ≠ st.nextSend ∧ other ∈ st.ready := AList.mem_erase
  refine ⟨?_, ?_, h.single, fun other hother => ?_, fun other hother => ?_,
    fun other hother hfile => ?_, fun hroom other hother hfile => ?_, fun hroom hholds => ?_⟩
  · rw [sentChunks_pumped, ← h.counted]
    rfl
  · rw [submittedReads_other _ rfl]
    exact h.issued
  · obtain ⟨hle, hnot, hlt⟩ := h.waiting other hother
    refine ⟨Nat.lt_of_le_of_ne hle ?_, fun hin => hnot (hmem.mp hin).2, hlt⟩
    rintro rfl
    exact hnot hready
  · obtain ⟨hne, hin⟩ := hmem.mp hother
    exact Nat.lt_of_le_of_ne (h.swept other hin) (Ne.symm hne)
  · exact h.stored other (hmem.mp hother).2 hfile
  · rcases Nat.lt_succ_iff_lt_or_eq.mp hother with hlt | rfl
    · exact h.passed hroom other hlt hfile
    · rcases h.stored _ hready hfile with hissued | ⟨hholds, hzero⟩
      · exact hissued
      · exact absurd (hzero.trans (by rw [honly hroom hholds])) hlast
  · -- A body whose first chunk is held has no other, so its only chunk is the last.
    have hswept := h.swept 0 (h.kept hroom hholds)
    have hone := honly hroom hholds
    exact absurd (by omega) hlast

/-- The issue cursor passes a chunk that needs no read. -/
theorem Streaming.Spares.skip (h : st.Spares cfg held trace work) :
    { st with issueCursor := st.issueCursor + 1 }.Spares cfg held trace work where
  counted := h.counted
  issued seq hseq := (h.issued seq hseq).trans (Nat.lt_succ_self _)
  single := h.single
  waiting seq hseq := by
    obtain ⟨hle, hnot, hlt⟩ := h.waiting seq hseq
    exact ⟨hle, hnot, hlt.trans (Nat.lt_succ_self _)⟩
  swept := h.swept
  stored seq hseq hfile :=
    (h.stored seq hseq hfile).imp_left fun hlt => hlt.trans (Nat.lt_succ_self _)
  passed hroom seq hseq hfile := (h.passed hroom seq hseq hfile).trans (Nat.lt_succ_self _)
  kept := h.kept

/-- A file chunk at the issue cursor has not been sent. -/
theorem Streaming.Spares.unsent (h : st.Spares cfg held trace work) {offset len : ℕ}
    (hroom : 0 < cfg.maxInflightReads)
    (hchunk : st.chunks[st.issueCursor]? = some (.file offset len)) :
    st.nextSend ≤ st.issueCursor := by
  by_contra hsent
  have hfile : isFileAt st.chunks st.issueCursor = true := by
    rw [isFileAt]
    rw [hchunk]
    rfl
  exact absurd (h.passed hroom _ (Nat.lt_of_not_le hsent) hfile) (Nat.lt_irrefl _)

/-- A read is submitted for the chunk at the issue cursor. -/
theorem Streaming.Spares.issue (h : st.Spares cfg held trace work) {offset len inflight : ℕ}
    {handle : FileHandle} (hroom : 0 < cfg.maxInflightReads)
    (hchunk : st.chunks[st.issueCursor]? = some (.file offset len))
    (hready : st.issueCursor ∉ st.ready) :
    { st with issueCursor := st.issueCursor + 1, inflight }.Spares cfg held
      (trace ++ [Call.read handle offset len st.issueCursor])
      (Ticket.read st.issueCursor ::ₘ work) where
  counted := by
    rw [sentChunks_other _ rfl]
    exact h.counted
  issued seq hseq := by
    rw [submittedReads_read] at hseq
    rcases List.mem_append.mp hseq with hseq | hseq
    · exact (h.issued seq hseq).trans (Nat.lt_succ_self _)
    · rw [List.mem_singleton.mp hseq]
      exact Nat.lt_succ_self _
  single := by
    refine Multiset.nodup_cons.mpr ⟨fun hmem => ?_, h.single⟩
    exact absurd (h.waiting _ hmem).2.2 (Nat.lt_irrefl _)
  waiting seq hseq := by
    rcases Multiset.mem_cons.mp hseq with heq | hseq
    · cases heq
      exact ⟨h.unsent hroom hchunk, hready, Nat.lt_succ_self _⟩
    · obtain ⟨hle, hnot, hlt⟩ := h.waiting seq hseq
      exact ⟨hle, hnot, hlt.trans (Nat.lt_succ_self _)⟩
  swept := h.swept
  stored seq hseq hfile :=
    (h.stored seq hseq hfile).imp_left fun hlt => hlt.trans (Nat.lt_succ_self _)
  passed hroom seq hseq hfile := (h.passed hroom seq hseq hfile).trans (Nat.lt_succ_self _)
  kept := h.kept

end Streams

section Moves

variable {crates : Crates} {cfg : Config} {env : Env} {held : Bytes} {chunks : List Chunk}
  {s t : State}

/-- A completion adds no ticket; a closed bridge drops one. -/
theorem work_deliver_le {before after : List Op} {op : Op} {completion : Completion}
    {event : IoEvent} (hpending : s.pending = before ++ op :: after)
    (hevent : op.onDone completion = some event) :
    (deliver { s with pending := before ++ after } event).work ≤ s.work := by
  obtain ⟨bridge, delivering, heq, ⟨-, -, hevents, -⟩ | ⟨hclosed, hbridge, -⟩⟩ :=
    deliver_eq { s with pending := before ++ after } event
  · rw [heq]
    exact (work_complete delivering hpending hevent hevents).le
  · have hsame : bridge = s.bridge := hbridge.trans hclosed.symm
    rw [heq, hsame, State.work, State.work, hpending, coe_map_middle]
    refine Multiset.add_le_add_right (Multiset.add_le_add_right ?_)
    exact Multiset.le_cons_self _ _

theorem work_close_le (s : State) : (onStreamComplete s).work ≤ s.work := by
  refine Multiset.add_le_add_right (Multiset.add_le_add_left ?_)
  exact Multiset.zero_le _

/-- A state that has sent and read the same, with no more work, spares the same. -/
theorem Spares.of_le (h : Spares cfg chunks held s) (hphase : t.phase = s.phase)
    (htrace : t.trace = s.trace) (hwork : t.work ≤ s.work) : Spares cfg chunks held t where
  once := htrace ▸ h.once
  satisfied := htrace ▸ h.satisfied
  ahead := htrace ▸ h.ahead
  stream st hst := by
    obtain ⟨hchunks, hspares⟩ := h.stream st (hphase ▸ hst)
    rw [htrace]
    exact ⟨hchunks, hspares.of_le rfl rfl hwork⟩

/-- A call that neither sends nor reads, with a phase that spares the same. -/
theorem Spares.other (h : Spares cfg chunks held s) {call : Call}
    (hcall : call.readSeq = none) (htrace : t.trace = s.trace ++ [call])
    (hstream : ∀ st, t.phase = .streaming st →
      st.chunks = chunks ∧ st.Spares cfg held t.trace t.work) :
    Spares cfg chunks held t where
  once := by
    rw [htrace, submittedReads_other _ hcall]
    exact h.once
  satisfied := by
    rw [htrace, submittedReads_other _ hcall]
    exact h.satisfied
  ahead := by
    rw [htrace]
    refine h.ahead.snoc fun seq hseq => ?_
    rw [hcall] at hseq
    cases hseq
  stream := hstream

/-- A stream that has ended reads nothing any more. -/
theorem Spares.ended (h : Spares cfg chunks held s) {call : Call}
    (hcall : call.readSeq = none) (hphase : t.phase = .done)
    (htrace : t.trace = s.trace ++ [call]) : Spares cfg chunks held t := by
  refine h.other hcall htrace fun st hst => ?_
  rw [hphase] at hst
  nomatch hst

theorem Spares.onHook (h : Spares cfg chunks held s) (hook : Hook) :
    Spares cfg chunks held (s.onHook hook) := by
  have hwork := (work_onHook s hook).le
  obtain ⟨depth, commits, -, heq⟩ := onHook_eq s hook
  rw [heq] at hwork ⊢
  refine h.other rfl rfl fun st hst => ?_
  cases hphase : s.phase with
  | streaming st' =>
      rw [hphase] at hst
      cases hst
      obtain ⟨hchunks, hspares⟩ := h.stream st' hphase
      refine ⟨hchunks, Streaming.Spares.of_le (hspares.withDepth depth) ?_ ?_ hwork⟩
      · exact sentChunks_other _ rfl
      · exact submittedReads_other _ rfl
  | _ => rw [hphase] at hst; cases hst

theorem Spares.hooks (h : Spares cfg chunks held s) (hooks : List Hook) :
    Spares cfg chunks held (hooks.foldl State.onHook s) := by
  induction hooks generalizing s with
  | nil => exact h
  | cons hook hooks ih => exact ih (h.onHook hook)

/-- Every move of a stream whose body is the prefetched chunk alone, or has no
chunk that the prefetch holds, spares its reads. -/
theorem spares_move (hmove : Move crates cfg env s t) (haccount : Accounted cfg s)
    (hdelivering : Delivering (fun _ _ => True) chunks s)
    (honly : 0 < cfg.maxInflightReads → HoldsFirst chunks held → chunks.length = 1)
    (h : Spares cfg chunks held s) : Spares cfg chunks held t := by
  have hidle (hphase : s.phase = .idle) : False := by
    have hsent := sentAs_phase hdelivering.sent
    rw [hphase] at hsent
    rcases hsent with hstream | hdone
    · cases hstream
    · cases hdone
  -- A stream that is sending its body handles no open events.
  have hread {event : IoEvent} {rest : List IoEvent}
      (hbatch : s.batch = event :: rest) (hnot : event.isRead = false) : False := by
    have hyes := hdelivering.not_opening haccount hbatch
    exact absurd (hyes.symm.trans hnot) nofun
  cases hmove with
  | reentry reentry => exact h.of_le rfl rfl le_rfl
  | hook hook => exact h.onHook hook
  | refuse _ _ hphase => exact (hidle hphase).elim
  | accept hphase _ _ => exact (hidle hphase).elim
  | @complete before after op completion event hpending _ hevent =>
      exact h.of_le (deliver_phase _ _) (deliver_trace _ _) (work_deliver_le hpending hevent)
  | commit _ => exact h.of_le rfl rfl le_rfl
  | drain hbatch _ => exact h.of_le rfl rfl (work_drain hbatch _).le
  | openNext hbatch hnot _ _ => exact (hread hbatch hnot).elim
  | readDir _ hbatch hnot => exact (hread hbatch hnot).elim
  | respond _ _ _ hbatch hnot => exact (hread hbatch hnot).elim
  | sendHeaders _ hbatch hnot => exact (hread hbatch hnot).elim
  | beginStreaming hbatch _ _ _ _ => exact (hread hbatch rfl).elim
  | readOk hbatch hphase =>
      obtain ⟨hchunks, hspares⟩ := h.stream _ hphase
      rw [work_cons hbatch] at hspares
      refine ⟨h.once, h.satisfied, h.ahead, ?_⟩
      rintro _ ⟨⟩
      exact ⟨hchunks, hspares.store _ _⟩
  | readError _ _ => exact h.ended rfl rfl rfl
  | ignore hbatch _ _ =>
      refine h.of_le rfl rfl ?_
      rw [work_cons hbatch]
      exact Multiset.le_cons_self _ _
  | discard _ => exact h.of_le rfl rfl (work_discard_le s)
  | flushMore hphase _ hready hlast =>
      obtain ⟨hchunks, hspares⟩ := h.stream _ hphase
      refine h.other rfl rfl ?_
      rintro _ ⟨⟩
      refine ⟨hchunks, hspares.advance ?_ hlast (hchunks ▸ honly)⟩
      rw [← AList.lookup_isSome, hready]
      rfl
  | flushLast _ _ _ _ => exact h.ended rfl rfl rfl
  | issueSkip hphase _ _ _ =>
      obtain ⟨hchunks, hspares⟩ := h.stream _ hphase
      refine ⟨h.once, h.satisfied, h.ahead, ?_⟩
      rintro _ ⟨⟩
      exact ⟨hchunks, hspares.skip⟩
  | @issueRead st offset len hphase hinflight hchunk hready =>
      obtain ⟨hchunks, hspares⟩ := h.stream _ hphase
      have hroom : 0 < cfg.maxInflightReads := Nat.zero_lt_of_lt hinflight
      constructor
      · show (submittedReads (s.trace ++ [_])).Nodup
        rw [submittedReads_read]
        refine List.nodup_append.mpr ⟨h.once, List.nodup_singleton _, ?_⟩
        rintro seq hseq _ hlast rfl
        rw [List.mem_singleton.mp hlast] at hseq
        exact absurd (hspares.issued _ hseq) (Nat.lt_irrefl _)
      · intro hholds hzero
        have hmem : 0 ∈ submittedReads (s.trace ++ [_]) := hzero
        rw [submittedReads_read] at hmem
        rcases List.mem_append.mp hmem with hmem | hmem
        · exact h.satisfied hholds hmem
        · rw [← List.mem_singleton.mp hmem] at hready
          exact hready (hspares.kept hroom (hchunks ▸ hholds))
      · refine h.ahead.snoc ?_
        rintro seq ⟨⟩
        rw [← hspares.counted]
        exact hspares.unsent hroom hchunk
      · rintro _ ⟨⟩
        refine ⟨hchunks, ?_⟩
        rw [work_submit]
        exact hspares.issue hroom hchunk hready
  | streamComplete _ => exact h.of_le rfl rfl (work_close_le s)

end Moves

/-! ## Runs -/

section Runs

variable {crates : Crates} {cfg : Config} {plan : ResponsePlan} {prefetched : Bytes}
  {handle : FileHandle} {w s : State} {actions : List Action}

/-- The start of a body: only what is inline or held is ready. -/
theorem spares_initial {chunks : List Chunk} {held : Bytes} {trace : List Call}
    (hsent : sentChunks trace = 0) (hunread : submittedReads trace = []) :
    (initialStreaming handle chunks held).Spares cfg held trace 0 where
  counted := hsent.symm
  issued seq hseq := by
    rw [hunread] at hseq
    cases hseq
  single := Multiset.nodup_zero
  waiting seq hseq := absurd hseq (Multiset.notMem_zero _)
  swept seq _ := Nat.zero_le seq
  stored seq hseq hfile := by
    right
    obtain ⟨data, hdata⟩ := Option.isSome_iff_exists.mp (AList.lookup_isSome.mpr hseq)
    rcases lookup_seedPrefetch hdata with hinline | ⟨rfl, rfl, hfirst⟩
    · have hfile' : isFileAt chunks seq = true := hfile
      rw [isFileAt] at hfile'
      rw [hinline] at hfile'
      cases hfile'
    · cases chunks with
      | nil => cases hfirst
      | cons chunk rest =>
          cases hfirst
          exact ⟨⟨rest, rfl⟩, rfl⟩
  passed _ seq hseq := absurd hseq (Nat.not_lt_zero _)
  kept _ hholds := by
    obtain ⟨rest, rfl⟩ : HoldsFirst chunks held := hholds
    show 0 ∈ seedPrefetch _ held _
    simp [seedPrefetch]

theorem sentChunks_of_dataSends {trace : List Call} (hsends : dataSends trace = []) :
    sentChunks trace = 0 := by
  rw [dataSends, List.filterMap_eq_nil_iff] at hsends
  refine List.countP_eq_zero.mpr fun call hcall hpumped => ?_
  have hnone := hsends call hcall
  cases call with
  | sendResponseData caller data endStream => cases hnone
  | _ => cases hpumped

theorem spares_executePlan (hfresh : Fresh w) (hunread : submittedReads w.trace = []) :
    Spares cfg (bodyChunks cfg plan.body) (usablePrefetch plan.body prefetched)
      (executePlan cfg w plan handle prefetched).1 := by
  have hwork : w.work = 0 :=
    work_eq_zero_iff.mpr ⟨hfresh.pending, hfresh.events, hfresh.batch⟩
  have hahead : Always (fun before call =>
      ∀ seq, call.readSeq = some seq → sentChunks before ≤ seq) w.trace := by
    rintro before call after hsplit seq hseq
    have hmem : seq ∈ submittedReads w.trace := by
      rw [hsplit]
      exact List.mem_filterMap.mpr
        ⟨call, List.mem_append_cons_self, hseq⟩
    rw [hunread] at hmem
    cases hmem
  have hwaiting : Spares cfg (bodyChunks cfg plan.body)
      (usablePrefetch plan.body prefetched) (w.setPhase .done) := by
    refine ⟨?_, fun _ hzero => ?_, hahead, nofun⟩
    · exact hunread ▸ List.nodup_nil
    · have hmem : 0 ∈ submittedReads w.trace := hzero
      rw [hunread] at hmem
      cases hmem
  rw [executePlan_eq]
  split
  · exact (hwaiting.ended rfl rfl rfl).hooks _
  · refine Spares.hooks (hwaiting.other rfl rfl ?_) _
    rintro _ ⟨⟩
    refine ⟨rfl, ?_⟩
    show Streaming.Spares _ _ _ w.work _
    rw [hwork]
    refine spares_initial ?_ ?_
    · exact (sentChunks_other _ rfl).trans (sentChunks_of_dataSends hfresh.sends)
    · exact (submittedReads_other _ rfl).trans hunread

/-- Where the prefetched chunk is the whole body, or the prefetch holds no chunk, no
read is needless. -/
theorem spares_run (hfresh : Fresh w) (hunread : submittedReads w.trace = [])
    (honly : 0 < cfg.maxInflightReads →
      HoldsFirst (bodyChunks cfg plan.body) (usablePrefetch plan.body prefetched) →
        (bodyChunks cfg plan.body).length = 1)
    (hrun : StreamRun crates cfg Env.any (executePlan cfg w plan handle prefetched).1
      actions s) :
    Spares cfg (bodyChunks cfg plan.body) (usablePrefetch plan.body prefetched) s := by
  obtain ⟨haccount, hdelivering, hbatch⟩ :=
    @delivering_executePlan cfg Env.any w (fun _ _ => True) plan handle prefetched
      (anything_supplied Env.any) hfresh (fun _ => trivial) trivial
  have hspares : Spares cfg (bodyChunks cfg plan.body)
      (usablePrefetch plan.body prefetched) (executePlan cfg w plan handle prefetched).1 :=
    spares_executePlan hfresh hunread
  have hinvariant := run_invariant
    (I := fun s => Accounted cfg s ∧
      Delivering (fun _ _ => True) (bodyChunks cfg plan.body) s ∧
      Spares cfg (bodyChunks cfg plan.body) (usablePrefetch plan.body prefetched) s)
    (fun u v hmove h => ⟨accounted_move hmove h.1,
      delivering_move (anything_supplied Env.any) hmove h.1 h.2.1,
      spares_move hmove h.1 h.2.1 honly h.2.2⟩)
    hbatch ⟨haccount, hdelivering, hspares⟩ hrun
  exact hinvariant.1.2.2

theorem Spares.readsSparingly {chunks : List Chunk} {held : Bytes}
    (h : Spares cfg chunks held s) : ReadsSparingly chunks held s where
  once := h.once
  satisfied := h.satisfied
  ahead := h.ahead
  counted st hst := (h.stream st hst).2.counted
  swept st hst := (h.stream st hst).2.swept

end Runs

/-! ## The chunk that is read again -/

section Chunks

variable {cfg : Config} {body : BodyPlan} {prefetched : Bytes}

/-- The first chunk of a range, and what follows it. -/
theorem fileChunks_succ (start n : ℕ) :
    fileChunks cfg start (n + 1) = .file start (min (n + 1) cfg.chunkSize) ::
      fileChunksLoop cfg.chunkSize n (start + min (n + 1) cfg.chunkSize)
        (start + (n + 1)) := by
  have hlt : start < start + (n + 1) := by omega
  rw [fileChunks]
  rw [fileChunksLoop, if_pos hlt, Nat.add_sub_cancel_left]

/-- A prefetch that holds chunk 0 of several belongs to a whole file longer than
a chunk. -/
theorem only_of_not_rereads (hchunk : 1 ≤ cfg.chunkSize)
    (hnot : ¬RereadsPrefetch cfg body prefetched) (hroom : 0 < cfg.maxInflightReads)
    (hholds : HoldsFirst (bodyChunks cfg body) (usablePrefetch body prefetched)) :
    (bodyChunks cfg body).length = 1 := by
  obtain ⟨rest, hfirst⟩ := hholds
  cases body with
  | empty => cases hfirst
  | whole len =>
      cases len with
      | zero => cases hfirst
      | succ n =>
          rw [bodyChunks, fileChunks_succ] at hfirst ⊢
          obtain ⟨hhead, -⟩ := List.cons.inj hfirst
          have hlength : min (n + 1) cfg.chunkSize = prefetched.length :=
            (Chunk.file.inj hhead).2
          have hshort : n + 1 ≤ cfg.chunkSize := by
            by_contra hlong
            exact hnot ⟨hroom, n + 1, rfl, by omega, by omega⟩
          have hend : fileChunksLoop cfg.chunkSize n (0 + min (n + 1) cfg.chunkSize)
              (0 + (n + 1)) = [] := by
            rw [Nat.min_eq_left hshort]
            cases n with
            | zero => rfl
            | succ n => rw [fileChunksLoop, if_neg (Nat.lt_irrefl _)]
          rw [hend]
          rfl
  | segments ranges =>
      -- A range has a byte, so its first chunk is not covered by no prefetch at all.
      cases ranges with
      | nil => cases hfirst
      | cons range ranges =>
          rw [bodyChunks, List.flatMap_cons, ByteRange.length, fileChunks_succ,
            List.cons_append] at hfirst
          obtain ⟨hhead, -⟩ := List.cons.inj hfirst
          have hzero : min (range.stop - range.start + 1) cfg.chunkSize = 0 :=
            (Chunk.file.inj hhead).2
          omega
  | multipart parts terminator total =>
      cases parts <;> cases hfirst

/-- The chunks of such a file. -/
theorem RereadsPrefetch.chunks (hchunk : 1 ≤ cfg.chunkSize)
    (h : RereadsPrefetch cfg body prefetched) :
    usablePrefetch body prefetched = prefetched ∧ ∃ offset len rest,
      bodyChunks cfg body = .file 0 prefetched.length :: .file offset len :: rest := by
  obtain ⟨-, len, rfl, hlong, hlength⟩ := h
  obtain ⟨n, rfl⟩ : ∃ n, len = n + 2 := ⟨len - 2, by omega⟩
  have hlt : 0 + cfg.chunkSize < 0 + (n + 1 + 1) := by omega
  refine ⟨rfl, ?_⟩
  rw [bodyChunks, fileChunks_succ, Nat.min_eq_right hlong.le, hlength, fileChunksLoop,
    if_pos hlt]
  exact ⟨_, _, _, rfl⟩

end Chunks

section Pump

variable {crates : Crates} {cfg : Config} {s : State} {handle : FileHandle}
  {chunks rest : List Chunk} {held : Bytes} {offset len : ℕ}

theorem submittedReads_submitReads (handle : FileHandle) (requests : List ReadRequest)
    (s : State) :
    submittedReads (submitReads handle requests s).trace =
      submittedReads s.trace ++ requests.map (·.1) := by
  rw [submitReads]
  induction requests generalizing s with
  | nil => exact (List.append_nil _).symm
  | cons request requests ih =>
      rw [List.foldl_cons, ih, List.map_cons]
      show submittedReads (s.trace ++ [_]) ++ _ = _
      rw [submittedReads_read, List.append_assoc, List.singleton_append]

/-- A send during which Envoy fires no hook. -/
theorem send_quiet (call : Call) (hreentry : s.reentry = []) :
    s.send call = s.record call := by
  cases s
  cases hreentry
  rfl

theorem flush_send {st : Streaming} {data : Bytes} (fuel : ℕ)
    (hphase : s.phase = .streaming st) (hdepth : st.watermarkDepth = 0)
    (hready : st.ready.lookup st.nextSend = some data)
    (hlast : st.nextSend ≠ st.chunks.length - 1) :
    flush (fuel + 1) s =
      flush fuel ((s.setPhase (.streaming st.advance)).send
        (.sendResponseData .pump data false)) := by
  rw [flush]
  simp only [hphase, if_pos hdepth, hready, if_neg hlast]
  rfl

theorem flush_last {st : Streaming} {data : Bytes} (fuel : ℕ)
    (hphase : s.phase = .streaming st) (hdepth : st.watermarkDepth = 0)
    (hready : st.ready.lookup st.nextSend = some data)
    (hlast : st.nextSend = st.chunks.length - 1) :
    flush (fuel + 1) s = ((s.setPhase .done).send (.sendResponseData .pump data true), false) := by
  rw [flush]
  simp only [hphase, if_pos hdepth, hready, if_pos hlast]
  rfl

theorem flush_starved {st : Streaming} (fuel : ℕ) (hphase : s.phase = .streaming st)
    (hdepth : st.watermarkDepth = 0) (hready : st.ready.lookup st.nextSend = none) :
    flush (fuel + 1) s = (s, true) := by
  rw [flush]
  simp only [hphase, if_pos hdepth, hready]

/-- The first flush of a body sends the held chunk and stops at the next one. -/
theorem flush_held (hchunks : chunks = .file 0 held.length :: .file offset len :: rest)
    (hphase : s.phase = .streaming (initialStreaming handle chunks held))
    (hreentry : s.reentry = []) :
    flush (flushFuel s) s =
      ((s.setPhase (.streaming (initialStreaming handle chunks held).advance)).record
        (.sendResponseData .pump held false), true) := by
  have hready : (initialStreaming handle chunks held).ready =
      (inlineReady 0 chunks).insert 0 held := by
    subst hchunks
    simp [initialStreaming, seedPrefetch]
  have hlookup : (initialStreaming handle chunks held).ready.lookup 0 = some held := by
    rw [hready, AList.lookup_insert]
  have hlast : (initialStreaming handle chunks held).nextSend ≠
      (initialStreaming handle chunks held).chunks.length - 1 := by
    show (0 : ℕ) ≠ chunks.length - 1
    rw [hchunks, List.length_cons, List.length_cons]
    omega
  have hmissing : (initialStreaming handle chunks held).advance.ready.lookup
      (initialStreaming handle chunks held).advance.nextSend = none := by
    show ((initialStreaming handle chunks held).ready.erase 0).lookup 1 = none
    rw [AList.lookup_erase_ne Nat.one_ne_zero, hready, AList.lookup_insert_ne Nat.one_ne_zero,
      lookup_inlineReady, hchunks]
    rfl
  have hfuel : flushFuel s = ((inlineReady 0 chunks).erase 0).entries.length + 2 := by
    simp only [flushFuel, hphase, hready, AList.entries_insert, List.length_cons]
    rfl
  have hquiet := send_quiet
    (s := s.setPhase (.streaming (initialStreaming handle chunks held).advance))
    (.sendResponseData .pump held false) hreentry
  rw [hfuel, flush_send _ hphase rfl hlookup hlast, hquiet]
  exact flush_starved _ rfl rfl hmissing

/-- A stream with its waker set issues what the issue loop requests. -/
theorem issueReads_streaming {st : Streaming} (hwaker : s.waker = true)
    (hphase : s.phase = .streaming st) :
    issueReads cfg s = some (afterIssue s st
      (issueLoop cfg.maxInflightReads st.ready (st.chunks.drop st.issueCursor)
        st.issueCursor st.inflight)) := by
  rw [issueReads]
  simp only [if_pos hwaker, hphase]
  rfl

/-- The pump of a fresh body submits a read of the held chunk that it has just
sent. -/
theorem pump_rereads (hroom : 0 < cfg.maxInflightReads)
    (hchunks : chunks = .file 0 held.length :: .file offset len :: rest)
    (hphase : s.phase = .streaming (initialStreaming handle chunks held))
    (hreentry : s.reentry = []) (hwaker : s.waker = true) :
    ∃ t, pump cfg s = some t ∧ 0 ∈ submittedReads t.trace := by
  have hmissing : (0 : ℕ) ∉ (initialStreaming handle chunks held).advance.ready :=
    fun hmem => (AList.mem_erase.mp hmem).1 rfl
  obtain ⟨cursor, inflight, requests, hissue⟩ : ∃ cursor inflight requests,
      issueLoop cfg.maxInflightReads (initialStreaming handle chunks held).advance.ready
        (chunks.drop 0) 0 0 = (cursor, inflight, (0, 0, held.length) :: requests) := by
    rw [List.drop_zero, hchunks, issueLoop, if_pos hroom, ← hchunks, if_neg hmissing]
    exact ⟨_, _, _, rfl⟩
  have hpump : pump cfg s = issueReads cfg
      ((s.setPhase (.streaming (initialStreaming handle chunks held).advance)).record
        (.sendResponseData .pump held false)) := by
    rw [pump]
    rw [flush_held hchunks hphase hreentry]
  refine ⟨_, hpump.trans (issueReads_streaming hwaker rfl), ?_⟩
  show 0 ∈ submittedReads (afterIssue _ _ (issueLoop cfg.maxInflightReads
    (initialStreaming handle chunks held).advance.ready (chunks.drop 0) 0 0)).trace
  rw [hissue, afterIssue, submittedReads_submitReads]
  exact List.mem_append_cons_self

end Pump

/-- Without hooks, the first wakeup of a body whose first chunk the prefetch holds,
with others behind it, reads that chunk again. -/
theorem first_wakeup_rereads {crates : Crates} {cfg : Config} {plan : ResponsePlan}
    {prefetched : Bytes} (handle : FileHandle) (hchunk : 1 ≤ cfg.chunkSize)
    (h : RereadsPrefetch cfg plan.body prefetched) :
    ∃ t, StreamRun crates cfg Env.any
        (executePlan cfg servingState plan handle prefetched).1 [.scheduled []] t ∧
      ¬ReadsSparingly (bodyChunks cfg plan.body) (usablePrefetch plan.body prefetched)
        t := by
  obtain ⟨hheld, offset, len, rest, hchunks⟩ := h.chunks hchunk
  let u : State := (servingState.setPhase (.streaming
    (initialStreaming handle (bodyChunks cfg plan.body) prefetched))).record
      (.sendResponseHeaders (responseHeaders plan) false)
  have hstart : (executePlan cfg servingState plan handle prefetched).1 = u := by
    rw [executePlan_eq, if_neg (by rw [hchunks]; exact List.cons_ne_nil _ _), hheld]
    rfl
  obtain ⟨t, hpump, hread⟩ := @pump_rereads cfg u handle _ rest prefetched offset len
    h.1 hchunks rfl rfl rfl
  refine ⟨t, ?_, fun hsparing => ?_⟩
  · rw [hstart]
    exact .single trivial hpump
  · rw [hheld] at hsparing
    exact hsparing.satisfied ⟨_, hchunks⟩ hread

/-- No read is needless in any run of a body, unless its first chunk, which the
prefetch holds, is followed by others. -/
theorem reads_sparingly_iff {crates : Crates} {cfg : Config} {plan : ResponsePlan}
    {prefetched : Bytes} (hchunk : 1 ≤ cfg.chunkSize) :
    (∀ w handle actions s, Fresh w → submittedReads w.trace = [] →
      StreamRun crates cfg Env.any (executePlan cfg w plan handle prefetched).1
        actions s →
      ReadsSparingly (bodyChunks cfg plan.body) (usablePrefetch plan.body prefetched)
        s) ↔
      ¬RereadsPrefetch cfg plan.body prefetched := by
  constructor
  · intro hsparing hrereads
    obtain ⟨t, hrun, hnot⟩ :=
      @first_wakeup_rereads crates cfg plan prefetched ⟨1⟩ hchunk hrereads
    exact hnot (hsparing _ _ _ _ fresh_servingState rfl hrun)
  · intro hnot w handle actions s hfresh hunread hrun
    have honly : 0 < cfg.maxInflightReads →
        HoldsFirst (bodyChunks cfg plan.body) (usablePrefetch plan.body prefetched) →
          (bodyChunks cfg plan.body).length = 1 :=
      only_of_not_rereads hchunk hnot
    exact (spares_run hfresh hunread honly hrun).readsSparingly

/-- A file of one chunk, held by the prefetch. -/
theorem reads_sparingly_one_chunk :
    1 ≤ (Config.defaults ⟨"/srv"⟩).chunkSize ∧
      ∀ s, StreamRun Crates.plain (Config.defaults ⟨"/srv"⟩) Env.any
        (executePlan (Config.defaults ⟨"/srv"⟩) servingState (wholePlan 3) ⟨1⟩
          [1, 2, 3]).1 [.scheduled []] s →
        ReadsSparingly (bodyChunks (Config.defaults ⟨"/srv"⟩) (.whole 3)) [1, 2, 3] s := by
  refine ⟨by decide, fun s hrun => ?_⟩
  have hnot : ¬RereadsPrefetch (Config.defaults ⟨"/srv"⟩) (wholePlan 3).body [1, 2, 3] := by
    rintro ⟨-, len, hbody, hlong, hlength⟩
    exact absurd hlength (by decide)
  exact (reads_sparingly_iff (by decide)).mpr hnot servingState ⟨1⟩ _ s
    fresh_servingState rfl hrun

/-- With the default configuration, a file of 65537 bytes: the first 65536 are
prefetched and sent, and read again. -/
theorem prefetched_chunk_read_again :
    ¬∀ w handle actions s, Fresh w → submittedReads w.trace = [] →
      StreamRun Crates.plain (Config.defaults ⟨"/srv"⟩) Env.any
        (executePlan (Config.defaults ⟨"/srv"⟩) w (wholePlan 65537) handle
          (List.replicate 65536 0)).1 actions s →
      ReadsSparingly (bodyChunks (Config.defaults ⟨"/srv"⟩) (.whole 65537))
        (List.replicate 65536 0) s := by
  intro hsparing
  have hrereads : RereadsPrefetch (Config.defaults ⟨"/srv"⟩) (wholePlan 65537).body
      (List.replicate 65536 0) :=
    ⟨by decide, 65537, rfl, by decide, List.length_replicate⟩
  obtain ⟨t, hrun, hnot⟩ :=
    @first_wakeup_rereads Crates.plain _ (wholePlan 65537) _ ⟨1⟩ (by decide) hrereads
  exact hnot (hsparing _ _ _ _ fresh_servingState rfl hrun)

end EnvoyFiles.Filter
