import EnvoyFiles.Filter.Resolution

/-!
# The index loop

Where the first index file that opens is a directory, the resolution builds the
same index queue again each time it gets there, and opens it forever.  With the
bound of the other case this makes the condition exact.
-/

namespace EnvoyFiles.Filter

open Transition

/-- A result the filesystem gives for a path. -/
def Filesystem.result (fs : Filesystem) (path : PathBuf) : OpenResult :=
  match fs path with
  | some isDir => .ok (⟨1⟩, ⟨0, 0, 0, isDir⟩, [])
  | none => .error ⟨.notFound, none⟩

/-- The event of that result. -/
def Filesystem.event (fs : Filesystem) (path : PathBuf) (ctx : OpenCtx) : IoEvent :=
  match fs path with
  | some isDir => .opened ⟨1⟩ ⟨0, 0, 0, isDir⟩ ctx []
  | none => .openError ⟨.notFound, none⟩

theorem gives_result (fs : Filesystem) (path : PathBuf) :
    fs.Gives path (fs.result path) := by
  rw [Filesystem.result]
  split
  · next isDir hfs => exact hfs
  · next hfs => exact hfs

theorem onDone_result (fs : Filesystem) (path : PathBuf) (request : OpenRequest)
    (ctx : OpenCtx) :
    (Op.openStat request ctx).onDone (.openStat (fs.result path)) =
      some (fs.event path ctx) := by
  rw [Filesystem.result, Filesystem.event]
  cases fs path <;> rfl

/-- A filter that waits for the open of a path and for nothing else. -/
structure Opening (cfg : Config) (data : RequestData) (path : PathBuf)
    (ctx : OpenCtx) (s : State) : Prop where
  pending : s.pending = [.openStat (openRequest cfg (some data) path) ctx]
  request : s.request = some data
  waker : s.waker = true
  bridge : s.bridge = .empty
  batch : s.batch = []
  active : s.complete = false

section Rounds

variable {crates : Crates} {cfg : Config} {data : RequestData}
  {candidates : List Candidate} {fs : Filesystem} {s : State}
  {headers : List (Bytes × Bytes)} {path path' : PathBuf} {ctx ctx' : OpenCtx}

/-- The awaited open completes and its event leads to the next open. -/
theorem opening_round (hopening : Opening cfg data path ctx s) {phase : Phase}
    (hphase : phase.isStreaming = false)
    (hevent : ∀ u : State, u.phase = s.phase → u.request = some data →
      u.waker = true → handleEvent crates cfg u (fs.event path ctx) =
        some ((u.setPhase phase).submit
          (.openStat (openRequest cfg (some data) path') ctx')
          (.openStat (openRequest cfg (some data) path')), false)) :
    ∃ actions t, StreamRun crates cfg (fixedFilesystem headers fs) s actions t ∧
      Opening cfg data path' ctx' t ∧ t.phase = phase ∧ t.opens = s.opens + 1 := by
  let u : State := { s with
    pending := [], bridge := .single (fs.event path ctx), delivering := s.delivering + 1 }
  let v : State := { u with
    bridge := .empty, batch := [], reentry := [], commits := s.commits - 1 }
  let t : State := (v.setPhase phase).submit
    (.openStat (openRequest cfg (some data) path') ctx')
    (.openStat (openRequest cfg (some data) path'))
  have hcomplete : step crates cfg s (.complete 0 (.openStat (fs.result path))) =
      some u := by
    simp only [step, completeOp, hopening.pending, List.getElem?_cons_zero,
      Option.bind_eq_bind, Option.bind_some, onDone_result, List.eraseIdx_cons_zero]
    simp only [deliver, hopening.bridge, EventBridge.send]
    rfl
  have hscheduled : step crates cfg u (.scheduled []) = some t := by
    have hv : handleEvent crates cfg v (fs.event path ctx) = some (t, false) :=
      hevent v rfl hopening.request hopening.waker
    have hbatch : handleBatch crates cfg [fs.event path ctx]
        { v with batch := [fs.event path ctx] } = some (t, false) := by
      simp only [handleBatch, Option.bind_eq_bind]
      rw [hv]
      rfl
    have hactive : ¬u.complete = true := by
      rw [show u.complete = false from hopening.active]
      exact Bool.false_ne_true
    simp only [step, if_neg hactive]
    have hevents : u.bridge.events = [fs.event path ctx] := rfl
    rw [onScheduled]
    simp only [EventBridge.process_fst, EventBridge.process_snd, hevents]
    rw [hbatch]
    cases phase with
    | streaming st => cases hphase
    | _ => rfl
  refine ⟨[.complete 0 (.openStat (fs.result path)), .scheduled []], t,
    .cons ?_ hcomplete (.cons trivial hscheduled (.nil t)), ?_, rfl, ?_⟩
  · intro op hop
    rw [hopening.pending] at hop
    cases hop
    exact gives_result fs path
  · exact ⟨rfl, hopening.request, hopening.waker, rfl, rfl, hopening.active⟩
  · exact opens_open _ _

/-- An encoded variant that is no file leads to the next candidate. -/
theorem handleEvent_variant {u : State} {next : Candidate} {rest : List Candidate}
    (hphase : u.phase = .resolvingFile (next :: rest)) (hrequest : u.request = some data)
    (hwaker : u.waker = true) (hencoded : ctx.encoding.isSome = true)
    (hfs : fs path ≠ some false) :
    handleEvent crates cfg u (fs.event path ctx) =
      some ((u.setPhase (.resolvingFile rest)).submit
        (.openStat (openRequest cfg (some data) next.fsPath) next.openCtx)
        (.openStat (openRequest cfg (some data) next.fsPath)), false) := by
  have hopen : openNextCandidate cfg u =
      some ((u.setPhase (.resolvingFile rest)).submit
        (.openStat (openRequest cfg (some data) next.fsPath) next.openCtx)
        (.openStat (openRequest cfg (some data) next.fsPath)), false) := by
    simp only [openNextCandidate, hphase, submitOpen, State.setPhase, hwaker, hrequest]
    rfl
  rw [Filesystem.event]
  cases hpath : fs path with
  | none =>
      simp only [handleEvent, handleOpenError, resolver, hphase, List.isEmpty_cons]
      exact hopen
  | some isDir =>
      cases isDir with
      | false => exact absurd hpath hfs
      | true =>
          simp only [handleEvent, handleOpened, advanceAfterOpenMiss, resolver, hphase,
            hencoded, if_true]
          exact hopen

/-- A directory without an encoding leads to the first index file. -/
theorem handleEvent_directory {u : State} {contentType : String}
    {rest : List (PathBuf × String)} (hrequest : u.request = some data)
    (hwaker : u.waker = true) (hencoding : ctx.encoding = none)
    (hfs : fs path = some true) (hreaches : ReachesIndex cfg data candidates fs)
    (hindex : indexCandidates crates cfg (requestDir cfg data) =
      (path', contentType) :: rest) :
    handleEvent crates cfg u (fs.event path ctx) =
      some ((u.setPhase (.resolvingIndex (requestDir cfg data) rest)).submit
        (.openStat (openRequest cfg (some data) path') ⟨none, contentType, false⟩)
        (.openStat (openRequest cfg (some data) path')), false) := by
  have hredirect := hreaches.noRedirect
  have hallowed := hreaches.allowed
  rw [requestDir] at hindex ⊢
  simp only [Filesystem.event, hfs, handleEvent, handleOpened, if_true, hencoding,
    Option.isSome_none, Bool.false_eq_true, if_false, handleDirectory, hrequest,
    hredirect, hallowed, hindex, List.isEmpty_cons, openNextIndex, State.setPhase,
    submitOpen, hwaker]
  rfl

/-- An index file that cannot be opened leads to the next one. -/
theorem handleEvent_missing {u : State} {dirFs : PathBuf} {contentType : String}
    {rest : List (PathBuf × String)}
    (hphase : u.phase = .resolvingIndex dirFs ((path', contentType) :: rest))
    (hrequest : u.request = some data) (hwaker : u.waker = true)
    (hfs : fs path = none) :
    handleEvent crates cfg u (fs.event path ctx) =
      some ((u.setPhase (.resolvingIndex dirFs rest)).submit
        (.openStat (openRequest cfg (some data) path') ⟨none, contentType, false⟩)
        (.openStat (openRequest cfg (some data) path')), false) := by
  simp only [Filesystem.event, hfs, handleEvent, handleOpenError, resolver, hphase,
    openNextIndex, submitOpen, State.setPhase, hwaker, hrequest]
  rfl

end Rounds

/-! ## Round and round -/

/-- The resolution waits for an index file, and the next one that opens is a
directory. -/
def InLoop (crates : Crates) (cfg : Config) (data : RequestData)
    (fs : Filesystem) (s : State) : Prop :=
  ∃ tried path contentType pending,
    s.phase = .resolvingIndex (requestDir cfg data) pending ∧
      Opening cfg data path ⟨none, contentType, false⟩ s ∧
      indexCandidates crates cfg (requestDir cfg data) =
        tried ++ (path, contentType) :: pending ∧
      (((path, contentType) :: pending).filterMap fun entry => fs entry.1).head? =
        some true

section Loop

variable {crates : Crates} {cfg : Config} {data : RequestData}
  {candidates : List Candidate} {fs : Filesystem} {s : State}
  {headers : List (Bytes × Bytes)}

/-- A directory enters the loop at the front of the index queue. -/
theorem inLoop_of_directory {path : PathBuf} {ctx : OpenCtx}
    (hreenters : ReentersIndex crates cfg data candidates fs)
    (hopening : Opening cfg data path ctx s) (hencoding : ctx.encoding = none)
    (hfs : fs path = some true) :
    ∃ actions t, StreamRun crates cfg (fixedFilesystem headers fs) s actions t ∧
      InLoop crates cfg data fs t ∧ t.opens = s.opens + 1 := by
  obtain ⟨hreaches, hindex⟩ := hreenters
  obtain ⟨entry, rest, hqueue⟩ : ∃ entry rest,
      indexCandidates crates cfg (requestDir cfg data) = entry :: rest := by
    cases hqueue : indexCandidates crates cfg (requestDir cfg data) with
    | nil =>
        rw [IndexIsDirectory, hqueue] at hindex
        cases hindex
    | cons entry rest => exact ⟨entry, rest, rfl⟩
  obtain ⟨path', contentType⟩ := entry
  obtain ⟨actions, t, hrun, hnext, hphase, hopens⟩ :
      ∃ actions t, StreamRun crates cfg (fixedFilesystem headers fs) s actions t ∧ _ :=
    opening_round hopening rfl fun u _ hrequest hwaker =>
      handleEvent_directory hrequest hwaker hencoding hfs hreaches hqueue
  refine ⟨actions, t, hrun, ⟨[], path', contentType, rest, hphase, hnext, hqueue, ?_⟩,
    hopens⟩
  rw [IndexIsDirectory, hqueue] at hindex
  exact hindex

/-- The loop goes on: the awaited index file is missing and the next one is
opened, or it is the directory and the queue starts again. -/
theorem inLoop_round (hreenters : ReentersIndex crates cfg data candidates fs)
    (hloop : InLoop crates cfg data fs s) :
    ∃ actions t, StreamRun crates cfg (fixedFilesystem headers fs) s actions t ∧
      InLoop crates cfg data fs t ∧ s.opens < t.opens := by
  obtain ⟨tried, path, contentType, pending, hphase, hopening, hsplit, hhead⟩ := hloop
  cases hfs : fs path with
  | some isDir =>
      rw [List.filterMap_cons, hfs] at hhead
      cases hhead
      obtain ⟨actions, t, hrun, hloop, hopens⟩ :
          ∃ actions t, StreamRun crates cfg (fixedFilesystem headers fs) s actions t ∧ _ :=
        inLoop_of_directory hreenters hopening rfl hfs
      exact ⟨actions, t, hrun, hloop, hopens ▸ Nat.lt_succ_self _⟩
  | none =>
      rw [List.filterMap_cons, hfs] at hhead
      cases pending with
      | nil => cases hhead
      | cons entry rest =>
          obtain ⟨path', contentType'⟩ := entry
          obtain ⟨actions, t, hrun, hnext, hphase', hopens⟩ :
              ∃ actions t,
                StreamRun crates cfg (fixedFilesystem headers fs) s actions t ∧ _ :=
            opening_round hopening rfl fun u hu hrequest hwaker =>
              handleEvent_missing (hu.trans hphase) hrequest hwaker hfs
          refine ⟨actions, t, hrun, ⟨tried ++ [(path, contentType)], path',
            contentType', rest, hphase', hnext, ?_, hhead⟩, hopens ▸ Nat.lt_succ_self _⟩
          rw [hsplit, List.append_assoc, List.singleton_append]

/-- Through the encoded variants and the identity candidate the resolution comes
to the loop. -/
theorem inLoop_of_candidates (hreenters : ReentersIndex crates cfg data candidates fs)
    (haccepts : Accepts crates cfg headers data candidates)
    {tried pending : List Candidate} {current : Candidate}
    (hsplit : candidates = tried ++ current :: pending)
    (hphase : s.phase = .resolvingFile pending)
    (hopening : Opening cfg data current.fsPath current.openCtx s) :
    ∃ actions t, StreamRun crates cfg (fixedFilesystem headers fs) s actions t ∧
      InLoop crates cfg data fs t := by
  induction pending generalizing s tried current with
  | nil =>
      obtain ⟨rawPath, relative, trailingSlash, -, -, rfl, rfl⟩ := haccepts
      obtain ⟨-, hlast⟩ := List.append_inj' hsplit rfl
      cases hlast
      obtain ⟨actions, t, hrun, hloop, -⟩ :
          ∃ actions t, StreamRun crates cfg (fixedFilesystem headers fs) s actions t ∧ _ :=
        inLoop_of_directory hreenters hopening rfl hreenters.1.identity
      exact ⟨actions, t, hrun, hloop⟩
  | cons next rest ih =>
      have hencoded : current.encoding.isSome = true := by
        rw [Option.isSome_iff_ne_none]
        intro hidentity
        obtain ⟨rawPath, relative, trailingSlash, -, -, -, rfl⟩ := haccepts
        obtain ⟨hnil, -⟩ := identity_last hsplit hidentity
        cases hnil
      have hmem : current ∈ candidates := by
        rw [hsplit]
        exact List.mem_append_cons_self
      have hfs := hreenters.1.encoded current hmem hencoded
      obtain ⟨actions, t, hrun, hnext, hphase', -⟩ :
          ∃ actions t, StreamRun crates cfg (fixedFilesystem headers fs) s actions t ∧ _ :=
        opening_round hopening rfl fun u hu hrequest hwaker =>
          handleEvent_variant (hu.trans hphase) hrequest hwaker hencoded hfs
      have hsplit' : candidates = (tried ++ [current]) ++ next :: rest := by
        rw [hsplit, List.append_assoc, List.singleton_append]
      obtain ⟨more, u, hmore, hloop⟩ := ih hsplit' hphase' hnext
      exact ⟨actions ++ more, u, hrun.append hmore, hloop⟩

/-- The method is one that is served. -/
def ServedMethod (headers : List (Bytes × Bytes)) : Prop :=
  let method := (RawRequestHeaders.collect headers).method
  method = some (Text.asBytes "HEAD") ∨ method = some (Text.asBytes "GET")

theorem accepts_ne_nil (haccepts : Accepts crates cfg headers data candidates) :
    candidates ≠ [] := by
  obtain ⟨rawPath, relative, trailingSlash, -, -, -, rfl⟩ := haccepts
  rw [buildFileCandidates]
  exact List.append_ne_nil_of_right_ne_nil _ (List.cons_ne_nil _ _)

/-- The headers of an accepted request open the first candidate. -/
theorem opening_of_accepted (hmethod : ServedMethod headers)
    {candidate : Candidate} {rest : List Candidate}
    (haccepts : Accepts crates cfg headers data (candidate :: rest)) :
    ∃ s, StreamRun crates cfg (fixedFilesystem headers fs) State.initial
      [.requestHeaders headers []] s ∧
      s.phase = .resolvingFile rest ∧
      Opening cfg data candidate.fsPath candidate.openCtx s := by
  obtain ⟨rawPath, relative, trailingSlash, hmount, hresolve, hdata, hcandidates⟩ :=
    haccepts
  have hserved : ¬((RawRequestHeaders.collect headers).method ≠
      some (Text.asBytes "HEAD") ∧
      (RawRequestHeaders.collect headers).method ≠ some (Text.asBytes "GET")) := by
    rintro ⟨hhead, hget⟩
    rcases hmethod with h | h
    · exact hhead h
    · exact hget h
  have hstep : step crates cfg State.initial (.requestHeaders headers []) =
      some (({ State.initial with
          request := some data, waker := true, phase := .resolvingFile rest }).submit
        (.openStat (openRequest cfg (some data) candidate.fsPath) candidate.openCtx)
        (.openStat (openRequest cfg (some data) candidate.fsPath))) := by
    show onRequestHeaders crates cfg State.initial headers = _
    rw [onRequestHeaders]
    simp only [if_neg hserved, hmount, hresolve, startResolving, ← hcandidates,
      ← hdata, openNextCandidate, submitOpen, State.setPhase]
    rfl
  exact ⟨_, .single rfl hstep, rfl, rfl, rfl, rfl, rfl, rfl, rfl⟩

/-- A resolution that comes back to its index queue opens without a bound. -/
theorem opens_unbounded (hmethod : ServedMethod headers)
    (haccepts : Accepts crates cfg headers data candidates)
    (hreenters : ReentersIndex crates cfg data candidates fs) (n : ℕ) :
    ∃ actions s, StreamRun crates cfg (fixedFilesystem headers fs) State.initial
      actions s ∧ n ≤ s.opens := by
  obtain ⟨candidate, rest, rfl⟩ :=
    List.exists_cons_of_ne_nil (accepts_ne_nil haccepts)
  obtain ⟨s, hstart, hphase, hopening⟩ : ∃ s, StreamRun crates cfg
      (fixedFilesystem headers fs) State.initial [.requestHeaders headers []] s ∧ _ :=
    opening_of_accepted hmethod haccepts
  have hall : candidate :: rest = [] ++ candidate :: rest := rfl
  obtain ⟨first, t, hrun, hloop⟩ :=
    inLoop_of_candidates hreenters haccepts hall hphase hopening
  obtain ⟨more, u, hmore, -, hopens⟩ := Run.exists_growing
    (fun s hs => inLoop_round hreenters hs) hloop n
  exact ⟨_, u, (hstart.append hrun).append hmore, hopens⟩

end Loop

/-- A candidate for each accepted encoding, and one more. -/
theorem length_candidates {crates : Crates} {cfg : Config}
    {headers : List (Bytes × Bytes)} {data : RequestData}
    {candidates : List Candidate}
    (haccepts : Accepts crates cfg headers data candidates) :
    candidates.length = (acceptedEncodings crates cfg data.trailingSlash
      (RawRequestHeaders.collect headers).acceptEncoding).length + 1 := by
  obtain ⟨rawPath, relative, trailingSlash, -, -, rfl, rfl⟩ := haccepts
  simp [buildFileCandidates, requestData]

/-- On a filesystem that does not change, the resolution of an accepted request
opens at most a candidate for each accepted encoding, the identity candidate and
the index files, if and only if it does not come back to its index queue. -/
theorem resolution_terminates_iff {crates : Crates} {cfg : Config}
    {headers : List (Bytes × Bytes)} {data : RequestData}
    {candidates : List Candidate} {fs : Filesystem}
    (hmethod : ServedMethod headers)
    (haccepts : Accepts crates cfg headers data candidates) :
    (∀ actions s,
      StreamRun crates cfg (fixedFilesystem headers fs) State.initial actions s →
        s.opens ≤ ((acceptedEncodings crates cfg data.trailingSlash
          (RawRequestHeaders.collect headers).acceptEncoding).length + 1) +
            cfg.indexFiles.length) ↔
      ¬ReentersIndex crates cfg data candidates fs := by
  rw [← length_candidates haccepts]
  constructor
  · intro hbounded hreenters
    obtain ⟨actions, s, hrun, hopens⟩ := opens_unbounded hmethod haccepts hreenters
      (candidates.length + cfg.indexFiles.length + 1)
    have hle := hbounded actions s hrun
    omega
  · intro hno actions s hrun
    exact opens_le_of_not_reenters haccepts hno hrun

/-! ### A directory with an index, and one whose index is a directory -/

/-- The request data and the candidates of `GET /docs/`. -/
def docsRequest : RequestData :=
  requestData (RawRequestHeaders.collect (getHeaders "/docs/")) "docs" true

def docsCandidates : List Candidate :=
  buildFileCandidates Crates.plain (Config.defaults ⟨"/srv"⟩) "docs" true none

theorem accepts_docs :
    Accepts Crates.plain (Config.defaults ⟨"/srv"⟩) (getHeaders "/docs/") docsRequest
      docsCandidates :=
  ⟨"/docs/", "docs", true, by decide, by decide, rfl,
    by decide⟩

theorem servedMethod_docs : ServedMethod (getHeaders "/docs/") :=
  Or.inr (by decide)

/-- `docs` is a directory, and everything else a file. -/
def docsFilesystem : Filesystem :=
  fun path => some (path == ⟨"/srv/docs"⟩)

theorem resolution_terminates_iff_docs :
    ¬ReentersIndex Crates.plain (Config.defaults ⟨"/srv"⟩) docsRequest docsCandidates
        docsFilesystem ∧
      ∀ actions s, StreamRun Crates.plain (Config.defaults ⟨"/srv"⟩)
        (fixedFilesystem (getHeaders "/docs/") docsFilesystem) State.initial actions s →
          s.opens ≤ ((acceptedEncodings Crates.plain (Config.defaults ⟨"/srv"⟩)
            docsRequest.trailingSlash
            (RawRequestHeaders.collect (getHeaders "/docs/")).acceptEncoding).length + 1) +
              (Config.defaults ⟨"/srv"⟩).indexFiles.length := by
  have hfile : ((indexCandidates Crates.plain (Config.defaults ⟨"/srv"⟩)
      (requestDir (Config.defaults ⟨"/srv"⟩) docsRequest)).filterMap
      fun entry => docsFilesystem entry.1).head? = some false := by
    decide
  have hno : ¬ReentersIndex Crates.plain (Config.defaults ⟨"/srv"⟩) docsRequest docsCandidates
      docsFilesystem := by
    rintro ⟨-, hindex⟩
    cases hfile.symm.trans hindex
  exact ⟨hno, (resolution_terminates_iff servedMethod_docs accepts_docs).mpr hno⟩

/-- `index.html` is a directory: it is opened again and again. -/
theorem index_directory_is_reopened :
    ¬∀ (cfg : Config) (headers : List (Bytes × Bytes)) (data : RequestData)
        (candidates : List Candidate) (fs : Filesystem) (actions : List Action)
        (s : State),
      ServedMethod headers → Accepts Crates.plain cfg headers data candidates →
      StreamRun Crates.plain cfg (fixedFilesystem headers fs) State.initial actions s →
        s.opens ≤ ((acceptedEncodings Crates.plain cfg data.trailingSlash
          (RawRequestHeaders.collect headers).acceptEncoding).length + 1) +
            cfg.indexFiles.length := by
  intro hbounded
  have hreenters : ReentersIndex Crates.plain (Config.defaults ⟨"/srv"⟩) docsRequest
      docsCandidates (fun _ => some true) :=
    ⟨⟨fun _ _ _ => nofun, rfl, rfl, nofun⟩, rfl⟩
  obtain ⟨actions, s, hrun, hopens⟩ :=
    opens_unbounded servedMethod_docs accepts_docs hreenters 3
  have hle := hbounded _ _ _ _ _ actions s servedMethod_docs accepts_docs hrun
  have hbound : ((acceptedEncodings Crates.plain (Config.defaults ⟨"/srv"⟩)
      docsRequest.trailingSlash
      (RawRequestHeaders.collect (getHeaders "/docs/")).acceptEncoding).length + 1) +
        (Config.defaults ⟨"/srv"⟩).indexFiles.length = 2 := by
    decide
  omega

end EnvoyFiles.Filter
