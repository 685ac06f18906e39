import EnvoyFiles.Filter.Integrity

/-!
# Short reads

The engine answers a read at the end of the file with fewer bytes than
requested, and `handle_read` stores whatever arrives as the whole chunk.  When a
file is truncated after its `stat`, the body that goes out is shorter than the
announced length and later chunks move up.  The body is exact as long as the
reads of unsent chunks return their full length.
-/

namespace EnvoyFiles.Filter

/-- The engine's contract: a successful read returns at most the requested
number of bytes. -/
def shortReads : Env where
  requests _ := True
  completes _ op completion :=
    match op with
    | .read _ _ len _ => ∃ data, completion = .read (.ok data) ∧ data.length ≤ len
    | _ => True

/-- The same contract, with full reads for the chunks that are still to be
sent. -/
def fullReads : Env where
  requests _ := True
  completes s op completion :=
    match op with
    | .read _ _ len seq =>
        ∃ data, completion = .read (.ok data) ∧ data.length ≤ len ∧
          ∀ st, s.phase = .streaming st → st.nextSend ≤ seq → data.length = len
    | _ => True

/-- The data of `pump`'s sends; the one at position `i` is sent for chunk
`i`. -/
def pumpSends (sends : List (Caller × Bytes × Bool)) : List Bytes :=
  sends.filterMap fun send => if send.1 = .pump then some send.2.1 else none

/-- No byte of a later chunk follows a chunk that was sent short, and a body
that `pump` ends has the announced length. -/
structure ExactBody (chunks : List Chunk) (plan : ResponsePlan)
    (trace : List Call) : Prop where
  inOrder : ∀ (i j : ℕ) (chunk : Chunk) (early late : Bytes), i < j →
    chunks[i]? = some chunk → (pumpSends (dataSends trace))[i]? = some early →
    (pumpSends (dataSends trace))[j]? = some late → late ≠ [] →
      chunk.length ≤ early.length
  announced : ∀ before data after,
    trace = before ++ .sendResponseData .pump data true :: after →
      plan.Announces
        (sentBytes (before ++ [.sendResponseData .pump data true])).length

theorem fullReads_supplies :
    fullReads.Supplies fun chunk data => data.length = chunk.length := by
  intro s st handle offset len seq data hphase hseq hok
  obtain ⟨data', hdata, -, hfull⟩ := hok
  cases hdata
  exact hfull st hphase hseq

theorem pumpSends_pumped (datas : List Bytes) : pumpSends (pumped datas) = datas := by
  induction datas with
  | nil => rfl
  | cons data datas ih => exact congrArg (data :: ·) ih

theorem pumpSends_append (before after : List (Caller × Bytes × Bool)) :
    pumpSends (before ++ after) = pumpSends before ++ pumpSends after :=
  List.filterMap_append

/-- What `pump` has sent is owed to the first chunks. -/
theorem SentAs.pump_owed {owes : Chunk → Bytes → Prop} {chunks : List Chunk}
    {phase : Phase} {sends : List (Caller × Bytes × Bool)}
    (h : SentAs owes chunks phase sends) :
    ∃ count, List.Forall₂ owes (chunks.take count) (pumpSends sends) := by
  cases h with
  | @streaming st datas _ hsent =>
      refine ⟨st.nextSend, ?_⟩
      rw [pumpSends_pumped]
      exact hsent
  | @finished datas data hsent =>
      refine ⟨chunks.length, ?_⟩
      rw [pumpSends_append, pumpSends_pumped, List.take_length]
      exact hsent
  | @truncated sent datas hsent =>
      refine ⟨sent, ?_⟩
      rw [pumpSends_append, pumpSends_pumped]
      simpa [pumpSends] using hsent
  | headersOnly => exact ⟨0, by simp [pumpSends]⟩

theorem forall₂_getElem {α β : Type*} {R : α → β → Prop} {xs : List α}
    {ys : List β} (h : List.Forall₂ R xs ys) {i : ℕ} {x : α} {y : β}
    (hx : xs[i]? = some x) (hy : ys[i]? = some y) : R x y := by
  induction h generalizing i with
  | nil => cases hx
  | cons hhead _ ih =>
      cases i with
      | zero =>
          cases hx
          cases hy
          exact hhead
      | succ i => exact ih hx hy

theorem length_flatten_of_owed {chunks : List Chunk} {datas : List Bytes}
    (h : List.Forall₂ (fun chunk data => data.length = chunk.length) chunks datas) :
    datas.flatten.length = (chunks.map Chunk.length).sum := by
  induction h with
  | nil => rfl
  | cons hdata _ ih =>
      rw [List.flatten_cons, List.length_append, ih, hdata, List.map_cons,
        List.sum_cons]

section Runs

variable {crates : Crates} {cfg : Config} {facts : RequestFacts}
  {fileMeta : FileMeta} {plan : ResponsePlan} {prefetched : Bytes}
  {handle : FileHandle} {w s : State} {actions : List Action}

/-- In a run in which every read of an unsent chunk returns its full length,
the body is exact. -/
theorem full_reads_exact_body
    (hplan : planResponse crates facts fileMeta = some plan)
    (hchunk : 1 ≤ cfg.chunkSize) (htotal : plan.body.total < 2 ^ 64)
    (hfresh : Fresh w)
    (hrun : StreamRun crates cfg fullReads
      (executePlan cfg w plan handle prefetched).1 actions s) :
    ExactBody (bodyChunks cfg plan.body) plan s.trace := by
  have hsent := delivering_run fullReads_supplies hfresh (fun _ => rfl) rfl hrun
  constructor
  · intro i j chunk early late _ hchunk hearly _ _
    obtain ⟨count, howed⟩ := hsent.pump_owed
    have hlt : i < count := by
      have hi : i < (pumpSends (dataSends s.trace)).length :=
        (List.getElem?_eq_some_iff.mp hearly).1
      rw [← howed.length_eq, List.length_take] at hi
      omega
    have htake : ((bodyChunks cfg plan.body).take count)[i]? = some chunk := by
      rw [List.getElem?_take, if_pos hlt]
      exact hchunk
    exact (forall₂_getElem howed htake hearly).ge
  · intro before data after htrace
    rw [htrace, dataSends_append] at hsent
    obtain ⟨datas, hbefore, howed⟩ := SentAs.ended hsent
    have hbody : plan.body ≠ .empty := by
      intro hempty
      rw [hempty] at howed
      exact absurd howed.length_eq (by simp [bodyChunks])
    have hlength : (sentBytes (before ++ [.sendResponseData .pump data true])).length =
        plan.body.total := by
      rw [← bodyChunks_length hchunk plan.body, ← length_flatten_of_owed howed]
      rw [sentBytes]
      rw [dataSends_append, hbefore, List.flatMap_append, pumped_flatMap,
        List.flatten_append]
      rfl
    rw [hlength]
    exact planResponse_announces hplan hbody htotal

end Runs

/-! ### Witness and counterexample -/

theorem full_reads_exact_body_two_chunks :
    ∃ s : State, dataSends s.trace = [(.pump, [1, 2], false), (.pump, [3], true)] ∧
      ExactBody (bodyChunks twoByteChunks (.whole 3)) (wholePlan 3) s.trace := by
  have hrun : ∃ s, StreamRun Crates.plain twoByteChunks fullReads
      (executePlan twoByteChunks servingState (wholePlan 3) ⟨1⟩ []).1
      [.scheduled [], .complete 1 (.read (.ok [3])),
        .complete 0 (.read (.ok [1, 2])), .scheduled []] s ∧
      dataSends s.trace = [(.pump, [1, 2], false), (.pump, [3], true)] := by
    refine ⟨_, .cons trivial rfl (.cons ?_ rfl (.cons ?_ rfl
      (.cons trivial rfl (.nil _)))), rfl⟩
    · intro op hop
      have hread : Op.read ⟨1⟩ 2 1 1 = op := Option.some.inj hop
      rw [← hread]
      exact ⟨[3], rfl, le_rfl, fun _ _ _ => rfl⟩
    · intro op hop
      have hread : Op.read ⟨1⟩ 0 2 0 = op := Option.some.inj hop
      rw [← hread]
      exact ⟨[1, 2], rfl, le_rfl, fun _ _ _ => rfl⟩
  obtain ⟨s, hrun, hsends⟩ := hrun
  exact ⟨s, hsends, full_reads_exact_body (planResponse_plainFacts 3) (by decide)
    (by decide) fresh_servingState hrun⟩

/-- A file of three bytes is truncated after its `stat`: the read returns
nothing, and an empty body is sent as the end of the three announced bytes. -/
theorem short_read_silently_truncates :
    ¬∀ actions s, StreamRun Crates.plain (Config.defaults ⟨"/srv"⟩) shortReads
      (executePlan (Config.defaults ⟨"/srv"⟩) servingState (wholePlan 3) ⟨1⟩ []).1
      actions s →
        ExactBody (bodyChunks (Config.defaults ⟨"/srv"⟩) (.whole 3)) (wholePlan 3)
          s.trace := by
  intro hexact
  have hrun : ∃ s, StreamRun Crates.plain (Config.defaults ⟨"/srv"⟩) shortReads
      (executePlan (Config.defaults ⟨"/srv"⟩) servingState (wholePlan 3) ⟨1⟩ []).1
      [.scheduled [], .complete 0 (.read (.ok [])), .commit, .scheduled []] s ∧
      s.trace = [.sendResponseHeaders (responseHeaders (wholePlan 3)) false,
        .read ⟨1⟩ 0 3 0, .sendResponseData .pump [] true] := by
    refine ⟨_, .cons trivial rfl (.cons ?_ rfl (.cons trivial rfl
      (.cons trivial rfl (.nil _)))), rfl⟩
    intro op hop
    have hread : Op.read ⟨1⟩ 0 3 0 = op := Option.some.inj hop
    rw [← hread]
    exact ⟨[], rfl, Nat.zero_le _⟩
  obtain ⟨s, hrun, htrace⟩ := hrun
  have hannounced := (hexact _ s hrun).announced
    [.sendResponseHeaders (responseHeaders (wholePlan 3)) false, .read ⟨1⟩ 0 3 0]
    [] [] htrace
  exact absurd hannounced (by decide)

end EnvoyFiles.Filter
