import EnvoyFiles.Core.PlanBodies
import EnvoyFiles.Filter.Accounting
import EnvoyFiles.Filter.Chunks

/-!
# The body a stream sends

A plan describes a sequence of bytes, which the filter cuts into chunks, reads
in any order and sends in order.  `Delivering` is the invariant of the sent
part: whatever relation the engine guarantees between a chunk and the bytes it
delivers for it holds between the chunk list and the data sent.
-/

namespace EnvoyFiles.Filter

open Range

/-! ## Chunks and their bytes -/

/-- The `len` bytes of a file from `offset` on, as far as it has them. -/
def fileSlice (content : Bytes) (offset len : ℕ) : Bytes :=
  (content.drop offset).take len

/-- The bytes a chunk stands for. -/
def Chunk.bytes (content : Bytes) : Chunk → Bytes
  | .inline bytes => bytes
  | .file offset len => fileSlice content offset len

/-- The number of bytes a chunk is planned to have. -/
def Chunk.length : Chunk → ℕ
  | .inline bytes => bytes.length
  | .file _ len => len

def Chunk.isFile : Chunk → Bool
  | .file _ _ => true
  | .inline _ => false

/-- The body a plan describes: the file ranges and the inline framing in plan
order. -/
def plannedBody (content : Bytes) : BodyPlan → Bytes
  | .empty => []
  | .whole _ => content
  | .segments ranges =>
      ranges.flatMap fun range => fileSlice content range.start range.length
  | .multipart parts terminator _ =>
      parts.flatMap (fun part =>
        part.header ++ fileSlice content part.range.start part.range.length) ++
        terminator

theorem fileSlice_append (content : Bytes) (offset a b : ℕ) :
    fileSlice content offset a ++ fileSlice content (offset + a) b =
      fileSlice content offset (a + b) := by
  simp only [fileSlice]
  rw [List.take_add, List.drop_drop]

/-- A quantity that adds up over adjacent ranges adds up over the chunks of a
range. -/
theorem fileChunksLoop_tile {α : Type*} (f : Chunk → List α)
    (hnil : ∀ offset, f (.file offset 0) = [])
    (happend : ∀ offset a b,
      f (.file offset a) ++ f (.file (offset + a) b) = f (.file offset (a + b)))
    {chunkSize : ℕ} (hchunk : 1 ≤ chunkSize) (fuel offset stop : ℕ)
    (hfuel : stop ≤ offset + fuel) :
    (fileChunksLoop chunkSize fuel offset stop).flatMap f =
      f (.file offset (stop - offset)) := by
  induction fuel generalizing offset with
  | zero =>
      have hzero : stop - offset = 0 := by omega
      rw [hzero, hnil]
      rfl
  | succ fuel ih =>
      rw [fileChunksLoop]
      split
      · next hlt =>
          have hpos : 1 ≤ min (stop - offset) chunkSize := by omega
          rw [List.flatMap_cons, ih _ (by omega), happend]
          congr 2
          omega
      · next hge =>
          have hzero : stop - offset = 0 := by omega
          rw [hzero, hnil]
          rfl

theorem fileChunks_tile {α : Type*} (f : Chunk → List α)
    (hnil : ∀ offset, f (.file offset 0) = [])
    (happend : ∀ offset a b,
      f (.file offset a) ++ f (.file (offset + a) b) = f (.file offset (a + b)))
    {cfg : Config} (hchunk : 1 ≤ cfg.chunkSize) (start len : ℕ) :
    (fileChunks cfg start len).flatMap f = f (.file start len) := by
  rw [fileChunks]
  rw [fileChunksLoop_tile f hnil happend hchunk len start (start + len) le_rfl,
    Nat.add_sub_cancel_left]

theorem sum_map_flatMap {α β : Type*} (f : β → ℕ) (g : α → List β)
    (l : List α) :
    ((l.flatMap g).map f).sum = (l.map fun a => ((g a).map f).sum).sum := by
  induction l with
  | nil => rfl
  | cons a l ih =>
      rw [List.flatMap_cons, List.map_append, List.sum_append, ih, List.map_cons,
        List.sum_cons]

/-- The chunks of a body hold the planned bytes. -/
theorem bodyChunks_bytes {cfg : Config} (hchunk : 1 ≤ cfg.chunkSize)
    (content : Bytes) {body : BodyPlan}
    (hwhole : ∀ len, body = .whole len → len = content.length) :
    (bodyChunks cfg body).flatMap (Chunk.bytes content) =
      plannedBody content body := by
  have htile (start len : ℕ) :
      (fileChunks cfg start len).flatMap (Chunk.bytes content) =
        fileSlice content start len :=
    fileChunks_tile (Chunk.bytes content) (fun offset => by simp [Chunk.bytes, fileSlice])
      (fileSlice_append content) hchunk start len
  cases body with
  | empty => rfl
  | whole len =>
      rw [bodyChunks, htile, hwhole len rfl, plannedBody, fileSlice,
        List.drop_zero, List.take_length]
  | segments ranges =>
      rw [bodyChunks, plannedBody, List.flatMap_assoc]
      simp only [htile]
  | multipart parts terminator contentLength =>
      simp only [bodyChunks, plannedBody, List.flatMap_append, List.flatMap_assoc,
        List.flatMap_cons, List.flatMap_nil, htile, Chunk.bytes, List.append_nil]

/-- The chunks of a body have the planned lengths. -/
theorem bodyChunks_length {cfg : Config} (hchunk : 1 ≤ cfg.chunkSize)
    (body : BodyPlan) :
    ((bodyChunks cfg body).map Chunk.length).sum = body.total := by
  -- Lengths are counted in units, which add up over adjacent ranges.
  let units : Chunk → List Unit := fun chunk => List.replicate chunk.length ()
  have htile (start len : ℕ) :
      ((fileChunks cfg start len).map Chunk.length).sum = len := by
    have hunits := fileChunks_tile units (fun _ => rfl)
      (fun _ _ _ => List.replicate_append_replicate) hchunk start len
    have hlength := congrArg List.length hunits
    simp only [List.length_flatMap, units, List.length_replicate] at hlength
    exact hlength
  cases body with
  | empty => rfl
  | whole len => exact htile 0 len
  | segments ranges =>
      rw [bodyChunks, BodyPlan.total, sum_map_flatMap]
      simp only [htile]
  | multipart parts terminator contentLength =>
      rw [bodyChunks, BodyPlan.total, List.map_append, List.sum_append,
        sum_map_flatMap]
      simp only [List.map_cons, List.sum_cons, htile, Chunk.length, List.map_nil,
        List.sum_nil, Nat.add_zero]

/-! ## The data a stream has sent -/

/-- A body send: its caller, its data and whether it ends the stream. -/
def Call.dataSend : Call → Option (Caller × Bytes × Bool)
  | .sendResponseData caller data endStream => some (caller, data, endStream)
  | _ => none

/-- The body sends of a trace. -/
def dataSends (trace : List Call) : List (Caller × Bytes × Bool) :=
  trace.filterMap Call.dataSend

/-- The data sent on a trace, concatenated. -/
def sentBytes (trace : List Call) : Bytes :=
  (dataSends trace).flatMap fun send => send.2.1

/-- The sends of a stream's `datas`, none of which ends it. -/
def pumped (datas : List Bytes) : List (Caller × Bytes × Bool) :=
  datas.map fun data => (.pump, data, false)

theorem dataSends_append (before after : List Call) :
    dataSends (before ++ after) = dataSends before ++ dataSends after :=
  List.filterMap_append

theorem dataSends_other (trace : List Call) {call : Call}
    (h : call.dataSend = none) : dataSends (trace ++ [call]) = dataSends trace := by
  rw [dataSends_append, dataSends, dataSends, List.filterMap_cons, h,
    List.filterMap_nil, List.append_nil]

theorem pumped_append (datas : List Bytes) (data : Bytes) :
    pumped (datas ++ [data]) = pumped datas ++ [(.pump, data, false)] :=
  List.map_append

/-- How a chunk list `chunks` has been sent, given what the sent data owes its
chunk. -/
inductive SentAs (owes : Chunk → Bytes → Prop) (chunks : List Chunk) :
    Phase → List (Caller × Bytes × Bool) → Prop where
  | streaming {st : Streaming} {datas : List Bytes} :
      st.chunks = chunks →
      List.Forall₂ owes (chunks.take st.nextSend) datas →
      SentAs owes chunks (.streaming st) (pumped datas)
  | finished {datas : List Bytes} {data : Bytes} :
      List.Forall₂ owes chunks (datas ++ [data]) →
      SentAs owes chunks .done (pumped datas ++ [(.pump, data, true)])
  | truncated {sent : ℕ} {datas : List Bytes} :
      List.Forall₂ owes (chunks.take sent) datas →
      SentAs owes chunks .done (pumped datas ++ [(.handleRead, [], true)])
  /-- A plan without chunks is answered with headers only. -/
  | headersOnly : SentAs owes chunks .done []

theorem pumped_flatMap (datas : List Bytes) :
    ((pumped datas).flatMap fun send => send.2.1) = datas.flatten := by
  rw [pumped, List.flatMap_map, List.flatMap_id']

/-- The send that ends a stream is the last one. -/
theorem pumped_end {datas : List Bytes} {last : Caller × Bytes × Bool}
    {before after : List (Caller × Bytes × Bool)} {caller : Caller} {data : Bytes}
    (h : pumped datas ++ [last] = before ++ (caller, data, true) :: after) :
    before = pumped datas ∧ last = (caller, data, true) ∧ after = [] := by
  induction datas generalizing before with
  | nil =>
      cases before with
      | nil =>
          cases h
          exact ⟨rfl, rfl, rfl⟩
      | cons send before => simp [pumped] at h
  | cons first datas ih =>
      cases before with
      | nil => simp [pumped] at h
      | cons send before =>
          obtain ⟨hsend, hrest⟩ := List.cons.inj h
          obtain ⟨hbefore, hlast, hafter⟩ := ih hrest
          exact ⟨by rw [hbefore, ← hsend]; rfl, hlast, hafter⟩

theorem not_mem_pumped {datas : List Bytes} {caller : Caller} {data : Bytes} :
    (caller, data, true) ∉ pumped datas := by
  simp [pumped]

section Sent

variable {owes : Chunk → Bytes → Prop} {chunks : List Chunk} {phase : Phase}
  {sends : List (Caller × Bytes × Bool)}

/-- When `pump` ends the stream, every chunk has been sent. -/
theorem SentAs.ended {before after : List (Caller × Bytes × Bool)} {data : Bytes}
    (h : SentAs owes chunks phase (before ++ (.pump, data, true) :: after)) :
    ∃ datas, before = pumped datas ∧ List.Forall₂ owes chunks (datas ++ [data]) := by
  generalize hsends : before ++ (.pump, data, true) :: after = sends at h
  have hmem : (Caller.pump, data, true) ∈ sends := by
    rw [← hsends]
    exact List.mem_append_cons_self
  cases h with
  | streaming _ _ => exact absurd hmem not_mem_pumped
  | finished hsent =>
      obtain ⟨hbefore, hlast, -⟩ := pumped_end hsends.symm
      cases hlast
      exact ⟨_, hbefore, hsent⟩
  | truncated _ =>
      obtain ⟨-, hlast, -⟩ := pumped_end hsends.symm
      cases hlast
  | headersOnly => cases hmem

/-- What has been sent is owed to the first chunks. -/
theorem SentAs.sent (h : SentAs owes chunks phase sends) :
    ∃ count datas, List.Forall₂ owes (chunks.take count) datas ∧
      (sends.flatMap fun send => send.2.1) = datas.flatten := by
  cases h with
  | streaming _ hsent => exact ⟨_, _, hsent, pumped_flatMap _⟩
  | @finished datas data hsent =>
      refine ⟨chunks.length, datas ++ [data], ?_, ?_⟩
      · rw [List.take_length]
        exact hsent
      · rw [List.flatMap_append, pumped_flatMap, List.flatten_append]
        rfl
  | @truncated sent datas hsent =>
      refine ⟨sent, datas, hsent, ?_⟩
      rw [List.flatMap_append, pumped_flatMap]
      simp
  | headersOnly => exact ⟨0, [], by simp, rfl⟩

end Sent

/-- The engine's side of a stream: the reads it performs are of the stream's
chunks, and what has been stored or delivered for an unsent chunk is what is
owed to it. -/
structure Supplied (owes : Chunk → Bytes → Prop) (s : State) (st : Streaming) :
    Prop where
  pending : ∀ handle offset len seq, .read handle offset len seq ∈ s.pending →
    st.chunks[seq]? = some (.file offset len)
  event : ∀ seq data, .read seq (.ok data) ∈ s.bridge.events ++ s.batch →
    st.nextSend ≤ seq → ∃ chunk, st.chunks[seq]? = some chunk ∧ owes chunk data
  ready : ∀ seq data, st.ready.lookup seq = some data → st.nextSend ≤ seq →
    ∃ chunk, st.chunks[seq]? = some chunk ∧ owes chunk data

/-- The invariant of the body: the sent part is what is owed, and so is the part
on its way. -/
structure Delivering (owes : Chunk → Bytes → Prop) (chunks : List Chunk)
    (s : State) : Prop where
  sent : SentAs owes chunks s.phase (dataSends s.trace)
  supplied : ∀ st, s.phase = .streaming st → Supplied owes s st

section Moves

variable {crates : Crates} {cfg : Config} {env : Env} {s t : State}
  {owes : Chunk → Bytes → Prop} {chunks : List Chunk}

/-- What the environment's reads owe to the chunks that are still to be
sent. -/
def Env.Supplies (env : Env) (owes : Chunk → Bytes → Prop) : Prop :=
  ∀ s st handle offset len seq data, s.phase = .streaming st →
    st.nextSend ≤ seq →
    env.completes s (.read handle offset len seq) (.read (.ok data)) →
      owes (.file offset len) data

/-- A body is being sent or has ended. -/
theorem sentAs_phase {phase : Phase} {sends : List (Caller × Bytes × Bool)}
    (h : SentAs owes chunks phase sends) :
    phase.isStreaming = true ∨ phase = .done := by
  cases h with
  | streaming _ _ => exact Or.inl rfl
  | _ => exact Or.inr rfl

theorem sentAs_withDepth {phase : Phase} {sends : List (Caller × Bytes × Bool)}
    (depth : ℕ) (h : SentAs owes chunks phase sends) :
    SentAs owes chunks (phase.withDepth depth) sends := by
  cases h with
  | streaming hchunks hsent => exact .streaming hchunks hsent
  | finished hsent => exact .finished hsent
  | truncated hsent => exact .truncated hsent
  | headersOnly => exact .headersOnly

/-- The next chunk, sent, extends what has been sent. -/
theorem forall₂_take_succ {n : ℕ} {chunk : Chunk} {datas : List Bytes}
    {data : Bytes} (hsent : List.Forall₂ owes (chunks.take n) datas)
    (hchunk : chunks[n]? = some chunk) (howes : owes chunk data) :
    List.Forall₂ owes (chunks.take (n + 1)) (datas ++ [data]) := by
  rw [List.take_add_one, hchunk]
  exact List.rel_append hsent (.cons howes .nil)

theorem Supplied.of_subset {s t : State} {st st' : Streaming}
    (h : Supplied owes s st) (hchunks : st'.chunks = st.chunks)
    (hnext : st.nextSend ≤ st'.nextSend)
    (hpending : ∀ op ∈ t.pending, op ∈ s.pending)
    (hevents : ∀ event ∈ t.bridge.events ++ t.batch,
      event ∈ s.bridge.events ++ s.batch)
    (hready : ∀ seq data, st'.nextSend ≤ seq → st'.ready.lookup seq = some data →
      st.ready.lookup seq = some data) :
    Supplied owes t st' where
  pending handle offset len seq hop := by
    rw [hchunks]
    exact h.pending handle offset len seq (hpending _ hop)
  event seq data hevent hseq := by
    rw [hchunks]
    exact h.event seq data (hevents _ hevent) (hnext.trans hseq)
  ready seq data hlookup hseq := by
    rw [hchunks]
    exact h.ready seq data (hready seq data hseq hlookup) (hnext.trans hseq)

/-- A completed read supplies its chunk. -/
theorem Supplied.complete (henv : env.Supplies owes) {st : Streaming}
    (hphase : s.phase = .streaming st) (h : Supplied owes s st)
    {before after : List Op} {op : Op} {completion : Completion}
    {event : IoEvent} (hpending : s.pending = before ++ op :: after)
    (hok : env.completes s op completion)
    (hevent : op.onDone completion = some event) :
    Supplied owes (deliver { s with pending := before ++ after } event) st := by
  obtain ⟨bridge, delivering, heq, ⟨-, -, hevents, -⟩ | ⟨-, hclosed, -⟩⟩ :=
    deliver_eq { s with pending := before ++ after } event
  · rw [heq]
    refine ⟨fun handle offset len seq hop => ?_, fun seq data hmem hseq => ?_,
      h.ready⟩
    · exact h.pending handle offset len seq (mem_of_mem_rest hpending hop)
    · rw [hevents, List.append_assoc, List.mem_append, List.singleton_append,
        List.mem_cons] at hmem
      rcases hmem with hmem | rfl | hmem
      · exact h.event seq data (List.mem_append_left _ hmem) hseq
      · -- The new event: its operation was a read of a chunk of the stream.
        have hop : op ∈ s.pending := by
          rw [hpending]
          exact List.mem_append_cons_self
        obtain ⟨handle, offset, len, rfl, rfl⟩ := onDone_read hevent
        exact ⟨.file offset len, h.pending handle offset len seq hop,
          henv s st handle offset len seq data hphase hseq hok⟩
      · exact h.event seq data (List.mem_append_right _ hmem) hseq
  · rw [heq]
    refine h.of_subset rfl le_rfl (fun _ => mem_of_mem_rest hpending)
      (fun event' hmem => ?_) fun _ _ _ h => h
    rw [hclosed] at hmem
    exact List.mem_append_right _ hmem

/-- A stored read supplies its chunk. -/
theorem Supplied.store {st : Streaming} {seq : ℕ} {data : Bytes}
    {rest : List IoEvent} (hbatch : s.batch = .read seq (.ok data) :: rest)
    (h : Supplied owes s st) (inflight : ℕ) (t : State)
    (hpending : t.pending = s.pending) (hbridge : t.bridge = s.bridge)
    (hrest : t.batch = rest) :
    Supplied owes t { st with inflight, ready := st.ready.insert seq data } where
  pending := by
    rw [hpending]
    exact h.pending
  event other data' hmem := by
    rw [hbridge, hrest] at hmem
    exact h.event other data' (mem_events_of_rest hbatch hmem)
  ready other data' hlookup hseq := by
    by_cases heq : other = seq
    · subst heq
      rw [AList.lookup_insert] at hlookup
      cases hlookup
      refine h.event other data ?_ hseq
      rw [hbatch]
      exact List.mem_append_cons_self
    · rw [AList.lookup_insert_ne heq] at hlookup
      exact h.ready other data' hlookup hseq

/-- No open event reaches a stream that is sending its body. -/
theorem Delivering.not_opening (h : Delivering owes chunks s)
    (haccount : Accounted cfg s) {event : IoEvent} {rest : List IoEvent}
    (hbatch : s.batch = event :: rest) : event.isRead = true := by
  by_contra hread
  obtain ⟨hphase, -⟩ := haccount.opening hbatch (by simpa using hread)
  rcases sentAs_phase h.sent with hstream | hdone
  · rw [not_streaming_of_resolving hphase] at hstream
    cases hstream
  · rw [hdone] at hphase
    cases hphase

/-- A streaming phase with another depth streams the same body. -/
theorem streaming_of_withDepth {phase : Phase} {depth : ℕ} {st : Streaming}
    (h : phase.withDepth depth = .streaming st) :
    ∃ st', phase = .streaming st' ∧ st.chunks = st'.chunks ∧
      st.nextSend = st'.nextSend ∧ st.ready = st'.ready := by
  cases phase with
  | streaming st' => cases h; exact ⟨st', rfl, rfl, rfl, rfl⟩
  | _ => cases h

theorem Delivering.streaming (h : Delivering owes chunks s) {st : Streaming}
    (hphase : s.phase = .streaming st) :
    st.chunks = chunks ∧ ∃ datas, dataSends s.trace = pumped datas ∧
      List.Forall₂ owes (chunks.take st.nextSend) datas := by
  have hsent := h.sent
  rw [hphase] at hsent
  generalize hsends : dataSends s.trace = sends at hsent
  cases hsent with
  | streaming hchunks hsent => exact ⟨hchunks, _, rfl, hsent⟩

/-- What is supplied depends only on the cells the body goes through. -/
theorem Delivering.of_eq (h : Delivering owes chunks s)
    (hphase : t.phase = s.phase) (htrace : dataSends t.trace = dataSends s.trace)
    (hpending : t.pending = s.pending)
    (hevents : ∀ event ∈ t.bridge.events ++ t.batch,
      event ∈ s.bridge.events ++ s.batch) :
    Delivering owes chunks t where
  sent := by
    rw [hphase, htrace]
    exact h.sent
  supplied st hst := by
    rw [hphase] at hst
    exact (h.supplied st hst).of_subset rfl le_rfl (fun op hop => hpending ▸ hop)
      hevents fun _ _ _ h => h

/-- Every move keeps the delivery of the body. -/
theorem delivering_move (henv : env.Supplies owes)
    (hmove : Move crates cfg env s t) (haccount : Accounted cfg s)
    (h : Delivering owes chunks s) : Delivering owes chunks t := by
  have hnotIdle : s.phase ≠ .idle := by
    intro hidle
    have hphase := sentAs_phase h.sent
    rw [hidle] at hphase
    rcases hphase with hphase | hphase <;> cases hphase
  cases hmove with
  | reentry reentry => exact h.of_eq rfl rfl rfl fun _ hmem => hmem
  | hook hook =>
      obtain ⟨depth, commits, -, heq⟩ := onHook_eq s hook
      rw [heq]
      refine ⟨?_, fun st hst => ?_⟩
      · rw [dataSends_other _ rfl]
        exact sentAs_withDepth depth h.sent
      · obtain ⟨st', hphase, hchunks, hnext, hready⟩ :=
          streaming_of_withDepth hst
        exact (h.supplied st' hphase).of_subset hchunks hnext.ge
          (fun _ hop => hop) (fun _ hmem => hmem)
          fun _ _ _ hlookup => hready ▸ hlookup
  | refuse _ _ hphase => exact absurd hphase hnotIdle
  | accept hphase _ _ => exact absurd hphase hnotIdle
  | complete hpending hok hevent =>
      refine ⟨?_, fun st hst => ?_⟩
      · rw [deliver_phase, deliver_trace]
        exact h.sent
      · rw [deliver_phase] at hst
        exact Supplied.complete (s := s) henv hst (h.supplied st hst) hpending hok
          hevent
  | commit _ => exact h.of_eq rfl rfl rfl fun _ hmem => hmem
  | drain hbatch _ =>
      refine h.of_eq rfl rfl rfl fun event hmem => ?_
      rw [hbatch, List.append_nil]
      exact hmem
  | openNext hbatch hread _ _ =>
      exact absurd ((h.not_opening haccount hbatch).symm.trans hread) nofun
  | readDir _ hbatch hread =>
      exact absurd ((h.not_opening haccount hbatch).symm.trans hread) nofun
  | respond _ _ _ hbatch hread =>
      exact absurd ((h.not_opening haccount hbatch).symm.trans hread) nofun
  | sendHeaders _ hbatch hread =>
      exact absurd ((h.not_opening haccount hbatch).symm.trans hread) nofun
  | beginStreaming hbatch _ _ _ _ =>
      exact absurd (h.not_opening haccount hbatch) nofun
  | readOk hbatch hphase =>
      obtain ⟨hchunks, datas, hsends, hsent⟩ := h.streaming hphase
      refine ⟨?_, fun st hst => ?_⟩
      · show SentAs owes chunks _ (dataSends s.trace)
        rw [hsends]
        exact .streaming hchunks hsent
      · cases hst
        exact (h.supplied _ hphase).store hbatch _ _ rfl rfl rfl
  | readError hbatch hphase =>
      obtain ⟨-, datas, hsends, hsent⟩ := h.streaming hphase
      refine ⟨?_, nofun⟩
      show SentAs owes chunks .done (dataSends (s.trace ++ [_]))
      rw [dataSends_append, hsends]
      exact .truncated hsent
  | ignore hbatch _ _ =>
      exact h.of_eq rfl rfl rfl fun _ => mem_events_of_rest hbatch
  | discard hphase =>
      refine h.of_eq rfl rfl rfl fun event hmem => ?_
      rw [List.append_nil] at hmem
      exact List.mem_append_left _ hmem
  | flushMore hphase _ hready _ =>
      obtain ⟨hchunks, datas, hsends, hsent⟩ := h.streaming hphase
      obtain ⟨chunk, hchunk, howes⟩ :=
        (h.supplied _ hphase).ready _ _ hready le_rfl
      refine ⟨?_, fun st hst => ?_⟩
      · show SentAs owes chunks _ (dataSends (s.trace ++ [_]))
        rw [dataSends_append, hsends]
        show SentAs owes chunks _ (pumped datas ++ [(.pump, _, false)])
        rw [← pumped_append]
        exact .streaming hchunks
          (forall₂_take_succ hsent (hchunks ▸ hchunk) howes)
      · cases hst
        refine (h.supplied _ hphase).of_subset rfl (Nat.le_succ _)
          (fun _ hop => hop) (fun _ hmem => hmem) fun seq data hseq hlookup => ?_
        have hne : seq ≠ Streaming.nextSend _ := Nat.ne_of_gt hseq
        exact (AList.lookup_erase_ne hne).symm.trans hlookup
  | flushLast hphase _ hready hlast =>
      obtain ⟨hchunks, datas, hsends, hsent⟩ := h.streaming hphase
      obtain ⟨chunk, hchunk, howes⟩ :=
        (h.supplied _ hphase).ready _ _ hready le_rfl
      refine ⟨?_, nofun⟩
      show SentAs owes chunks .done (dataSends (s.trace ++ [_]))
      rw [dataSends_append, hsends]
      refine .finished ?_
      have hall := forall₂_take_succ hsent (hchunks ▸ hchunk) howes
      rw [List.take_of_length_le (by rw [← hchunks]; omega)] at hall
      exact hall
  | issueSkip hphase _ _ _ =>
      obtain ⟨hchunks, datas, hsends, hsent⟩ := h.streaming hphase
      refine ⟨?_, fun st hst => ?_⟩
      · show SentAs owes chunks _ (dataSends s.trace)
        rw [hsends]
        exact .streaming hchunks hsent
      · cases hst
        exact (h.supplied _ hphase).of_subset rfl le_rfl (fun _ hop => hop)
          (fun _ hmem => hmem) fun _ _ _ hlookup => hlookup
  | issueRead hphase _ hchunk _ =>
      obtain ⟨hchunks, datas, hsends, hsent⟩ := h.streaming hphase
      have hsupplied := h.supplied _ hphase
      refine ⟨?_, fun st hst => ?_⟩
      · show SentAs owes chunks _ (dataSends (s.trace ++ [_]))
        rw [dataSends_other _ rfl, hsends]
        exact .streaming hchunks hsent
      · cases hst
        refine ⟨fun handle offset len seq hop => ?_, hsupplied.event,
          hsupplied.ready⟩
        rcases List.mem_append.mp hop with hop | hop
        · exact hsupplied.pending handle offset len seq hop
        · cases List.mem_singleton.mp hop
          exact hchunk
  | streamComplete hbatch =>
      refine h.of_eq rfl rfl rfl fun event hmem => ?_
      exact List.mem_append_right _ hmem

end Moves

end EnvoyFiles.Filter
