import EnvoyFiles.Filter.Accounting

/-!
# The opens of a resolution

A request opens its file candidates one after another and, if the identity
candidate is a directory, the index files in it.  On a filesystem that does not
change, both queues are used up once, unless an index file is itself a
directory: `handle_directory` then builds the same index queue again.
-/

namespace EnvoyFiles.Filter

/-- What opening a path gives: nothing, or whether it is a directory. -/
abbrev Filesystem := PathBuf → Option Bool

/-- An open's result is the one the filesystem has for the path. -/
def Filesystem.Gives (fs : Filesystem) (path : PathBuf) : OpenResult → Prop
  | .ok (_, stat, _) => fs path = some stat.isDir
  | .error _ => fs path = none

/-- The environment of one request on a filesystem that does not change. -/
def fixedFilesystem (headers : List (Bytes × Bytes)) (fs : Filesystem) : Env where
  requests h := h = headers
  completes _ op completion :=
    match op, completion with
    | .openStat request _, .openStat result => fs.Gives request.path result
    | _, _ => True

def Call.isOpen : Call → Bool
  | .openStat _ => true
  | _ => false

/-- The opens submitted so far. -/
def State.opens (s : State) : ℕ :=
  s.trace.countP Call.isOpen

/-- The directory of a request. -/
def requestDir (cfg : Config) (data : RequestData) : PathBuf :=
  cfg.root.join data.relative

/-- No encoded variant is a file, and the request path itself is a directory
whose index files are tried. -/
structure ReachesIndex (cfg : Config) (data : RequestData)
    (candidates : List Candidate) (fs : Filesystem) : Prop where
  encoded : ∀ candidate ∈ candidates, candidate.encoding.isSome = true →
    fs candidate.fsPath ≠ some false
  identity : fs (requestDir cfg data) = some true
  noRedirect : (!data.trailingSlash && cfg.redirectTrailingSlash) = false
  allowed : cfg.directory ≠ .deny

/-- The first index file that can be opened is a directory. -/
def IndexIsDirectory (crates : Crates) (cfg : Config) (data : RequestData)
    (fs : Filesystem) : Prop :=
  ((indexCandidates crates cfg (requestDir cfg data)).filterMap
    fun entry => fs entry.1).head? = some true

/-- The resolution comes back to the index queue it started from. -/
def ReentersIndex (crates : Crates) (cfg : Config) (data : RequestData)
    (candidates : List Candidate) (fs : Filesystem) : Prop :=
  ReachesIndex cfg data candidates fs ∧ IndexIsDirectory crates cfg data fs

/-- The opens of a resolution that does not come back. -/
def openBound (cfg : Config) (candidates : List Candidate) : ℕ :=
  candidates.length + cfg.indexFiles.length

theorem opens_other {trace : List Call} {call : Call} (hcall : call.isOpen = false) :
    (trace ++ [call]).countP Call.isOpen = trace.countP Call.isOpen := by
  rw [List.countP_append, List.countP_singleton, hcall]
  rfl

theorem opens_open (trace : List Call) (request : OpenRequest) :
    (trace ++ [Call.openStat request]).countP Call.isOpen =
      trace.countP Call.isOpen + 1 := by
  rw [List.countP_append, List.countP_singleton]
  rfl

theorem length_indexCandidates (crates : Crates) (cfg : Config) (dirFs : PathBuf) :
    (indexCandidates crates cfg dirFs).length = cfg.indexFiles.length :=
  List.length_map _

/-! ## The open that is awaited -/

/-- The operation opens a path, or reads a directory. -/
def Op.Seeks (path : PathBuf) (ctx : OpenCtx) : Op → Prop
  | .openStat request ctx' => request.path = path ∧ ctx' = ctx
  | .readDir _ => True
  | .read _ _ _ _ => False

/-- The event is the result of opening a path, or of a directory read. -/
def IoEvent.Answers (fs : Filesystem) (path : PathBuf) (ctx : OpenCtx) :
    IoEvent → Prop
  | .opened _ stat ctx' _ => ctx' = ctx ∧ fs path = some stat.isDir
  | .openError _ => fs path = none
  | .dir _ => True
  | .read _ _ => False

/-- Everything outstanding belongs to the open of one path. -/
structure Seeking (fs : Filesystem) (path : PathBuf) (ctx : OpenCtx) (s : State) :
    Prop where
  pending : ∀ op ∈ s.pending, op.Seeks path ctx
  events : ∀ event ∈ s.bridge.events ++ s.batch, event.Answers fs path ctx

/-- A miss in a queue of encoded candidates: the path is no file. -/
theorem Answers.not_file {fs : Filesystem} {path : PathBuf} {ctx : OpenCtx}
    {event : IoEvent} (h : event.Answers fs path ctx) (hmiss : event.isMiss = true) :
    fs path ≠ some false := by
  cases event with
  | opened handle stat ctx' prefetched =>
      obtain ⟨-, hfs⟩ := h
      simp only [IoEvent.isMiss, Bool.and_eq_true] at hmiss
      rw [hfs, hmiss.1]
      simp
  | openError error =>
      rw [show fs path = none from h]
      simp
  | _ => cases hmiss

/-- A miss of an open without an encoding: the path cannot be opened. -/
theorem Answers.nothing {fs : Filesystem} {path : PathBuf} {ctx : OpenCtx}
    {event : IoEvent} (h : event.Answers fs path ctx) (hmiss : event.isMiss = true)
    (hctx : ctx.encoding = none) : fs path = none := by
  cases event with
  | opened handle stat ctx' prefetched =>
      obtain ⟨rfl, -⟩ := h
      simp [IoEvent.isMiss, hctx] at hmiss
  | openError error => exact h
  | _ => cases hmiss

section Seeking

variable {fs : Filesystem} {path : PathBuf} {ctx : OpenCtx} {s t : State}

theorem Seeking.of_subset (h : Seeking fs path ctx s)
    (hpending : ∀ op ∈ t.pending, op ∈ s.pending)
    (hevents : ∀ event ∈ t.bridge.events ++ t.batch,
      event ∈ s.bridge.events ++ s.batch) : Seeking fs path ctx t where
  pending op hop := h.pending op (hpending op hop)
  events event hevent := h.events event (hevents event hevent)

/-- The handled event answers the open. -/
theorem Seeking.handled (h : Seeking fs path ctx s) {event : IoEvent}
    {rest : List IoEvent} (hbatch : s.batch = event :: rest) :
    event.Answers fs path ctx := by
  apply h.events event
  rw [hbatch]
  exact List.mem_append_cons_self

/-- A completion answers what its operation seeks. -/
theorem Seeking.complete {headers : List (Bytes × Bytes)}
    (h : Seeking fs path ctx s) {before after : List Op} {op : Op}
    {completion : Completion} {event : IoEvent}
    (hpending : s.pending = before ++ op :: after)
    (hok : (fixedFilesystem headers fs).completes s op completion)
    (hevent : op.onDone completion = some event) :
    Seeking fs path ctx (deliver { s with pending := before ++ after } event) := by
  have hop : op.Seeks path ctx := by
    apply h.pending op
    rw [hpending]
    exact List.mem_append_cons_self
  have hanswer : event.Answers fs path ctx := by
    cases op with
    | openStat request ctx' =>
        obtain ⟨rfl, rfl⟩ := hop
        cases completion with
        | openStat result =>
            cases result with
            | ok opened =>
                obtain ⟨handle, stat, prefetched⟩ := opened
                cases hevent
                exact ⟨rfl, hok⟩
            | error error =>
                cases hevent
                exact hok
        | _ => cases hevent
    | readDir dir =>
        cases completion with
        | readDir result =>
            cases hevent
            trivial
        | _ => cases hevent
    | read handle offset len seq => exact hop.elim
  have hkept : ∀ other ∈ before ++ after, other.Seeks path ctx := by
    intro other hother
    exact h.pending other (mem_of_mem_rest hpending hother)
  obtain ⟨bridge, delivering, heq, ⟨-, -, hevents, -⟩ | ⟨-, hclosed, -⟩⟩ :=
    deliver_eq { s with pending := before ++ after } event
  · rw [heq]
    refine ⟨hkept, fun other hother => ?_⟩
    rw [hevents, List.append_assoc, List.mem_append, List.singleton_append,
      List.mem_cons] at hother
    rcases hother with hother | rfl | hother
    · exact h.events other (List.mem_append_left _ hother)
    · exact hanswer
    · exact h.events other (List.mem_append_right _ hother)
  · rw [heq]
    refine ⟨hkept, fun other hother => ?_⟩
    rw [hclosed] at hother
    exact h.events other (List.mem_append_right _ hother)

/-- An operation submitted when nothing else is outstanding. -/
theorem seeking_submit (phase : Phase) {op : Op} {call : Call} (hwork : s.work = 0)
    (hop : op.Seeks path ctx) :
    Seeking fs path ctx ({ s with phase }.submit op call) := by
  obtain ⟨hpending, hevents, hbatch⟩ := work_eq_zero_iff.mp hwork
  constructor
  · intro other hother
    have hmem : other ∈ s.pending ++ [op] := hother
    rw [hpending, List.nil_append, List.mem_singleton] at hmem
    rw [hmem]
    exact hop
  · intro event hevent
    have hmem : event ∈ s.bridge.events ++ s.batch := hevent
    rw [hevents, hbatch] at hmem
    cases hmem

end Seeking

/-! ## The progress of a resolution -/

/-- How far a resolution has come.  Every open takes a candidate out of its
queue, and the candidates before the awaited one did not lead to a file. -/
inductive Progress (crates : Crates) (cfg : Config) (data : RequestData)
    (candidates : List Candidate) (fs : Filesystem) (s : State) : Prop where
  | idle : s.phase = .idle → s.work = 0 → s.opens = 0 →
      Progress crates cfg data candidates fs s
  | file {tried pending : List Candidate} {current : Candidate} :
      s.phase = .resolvingFile pending → s.request = some data →
      candidates = tried ++ current :: pending →
      (∀ candidate ∈ tried, fs candidate.fsPath ≠ some false) →
      s.opens + pending.length = candidates.length →
      Seeking fs current.fsPath current.openCtx s →
      Progress crates cfg data candidates fs s
  | index {tried pending : List (PathBuf × String)} {path : PathBuf}
      {contentType : String} :
      s.phase = .resolvingIndex (requestDir cfg data) pending →
      s.request = some data →
      indexCandidates crates cfg (requestDir cfg data) =
        tried ++ (path, contentType) :: pending →
      (∀ entry ∈ tried, fs entry.1 = none) →
      ReachesIndex cfg data candidates fs →
      s.opens + pending.length = openBound cfg candidates →
      Seeking fs path ⟨none, contentType, false⟩ s →
      Progress crates cfg data candidates fs s
  | finished : (s.phase.isStreaming = true ∨ s.phase = .done) →
      s.opens ≤ openBound cfg candidates →
      Progress crates cfg data candidates fs s

section Progress

variable {crates : Crates} {cfg : Config} {data : RequestData}
  {candidates : List Candidate} {fs : Filesystem} {s t : State}
  {headers : List (Bytes × Bytes)}

theorem not_over_of_resolving {phase : Phase} (h : phase.isResolving = true) :
    ¬(phase.isStreaming = true ∨ phase = .done) := by
  rintro (hstream | hdone)
  · rw [not_streaming_of_resolving h] at hstream
    cases hstream
  · rw [hdone] at h
    cases h

theorem Progress.opens_le (h : Progress crates cfg data candidates fs s) :
    s.opens ≤ openBound cfg candidates := by
  have hle : candidates.length ≤ openBound cfg candidates := Nat.le_add_right _ _
  cases h with
  | idle _ _ hopens => omega
  | file _ _ _ _ hopens _ => omega
  | index _ _ _ _ _ hopens _ => omega
  | finished _ hopens => exact hopens

/-- The cells that progress looks at. -/
theorem Progress.of_eq (h : Progress crates cfg data candidates fs s)
    (hphase : t.phase = s.phase) (hrequest : t.request = s.request)
    (hopens : t.opens = s.opens) (hpending : ∀ op ∈ t.pending, op ∈ s.pending)
    (hevents : ∀ event ∈ t.bridge.events ++ t.batch,
      event ∈ s.bridge.events ++ s.batch) :
    Progress crates cfg data candidates fs t := by
  cases h with
  | idle hidle hwork hnone =>
      obtain ⟨hops, hbridge, hbatch⟩ := work_eq_zero_iff.mp hwork
      rw [hops] at hpending
      rw [hbridge, hbatch, List.append_nil] at hevents
      refine .idle (hphase.trans hidle) (work_eq_zero_iff.mpr ?_) (hopens.trans hnone)
      obtain ⟨hbridge', hbatch'⟩ :=
        List.append_eq_nil_iff.mp (List.eq_nil_of_subset_nil hevents)
      exact ⟨List.eq_nil_of_subset_nil hpending, hbridge', hbatch'⟩
  | file hfile hdata hsplit htried hcount hseeking =>
      exact .file (hphase.trans hfile) (hrequest.trans hdata) hsplit htried
        (hopens ▸ hcount) (hseeking.of_subset hpending hevents)
  | index hindex hdata hsplit htried hreaches hcount hseeking =>
      exact .index (hphase.trans hindex) (hrequest.trans hdata) hsplit htried
        hreaches (hopens ▸ hcount) (hseeking.of_subset hpending hevents)
  | finished hover hle => exact .finished (by rw [hphase]; exact hover) (hopens ▸ hle)

/-- A response or the start of a body ends the resolution. -/
theorem Progress.finish (h : Progress crates cfg data candidates fs s)
    (hphase : t.phase.isStreaming = true ∨ t.phase = .done)
    (hopens : t.opens = s.opens) : Progress crates cfg data candidates fs t :=
  .finished hphase (hopens ▸ h.opens_le)

/-- The identity candidate is the only one without an encoding, and the last. -/
theorem identity_last {relative : String} {trailingSlash : Bool}
    {acceptEncoding : Option String} {tried pending : List Candidate}
    {current : Candidate}
    (hsplit : buildFileCandidates crates cfg relative trailingSlash acceptEncoding =
      tried ++ current :: pending) (hidentity : current.encoding = none) :
    pending = [] ∧ current.fsPath = cfg.root.join relative := by
  unfold buildFileCandidates at hsplit
  simp only at hsplit
  rcases List.eq_nil_or_concat pending with rfl | ⟨pending', last, rfl⟩
  · obtain ⟨-, hlast⟩ := List.append_inj' hsplit rfl
    cases hlast
    exact ⟨rfl, rfl⟩
  · -- Otherwise the candidate without an encoding is among the encoded ones.
    rw [List.concat_eq_append, ← List.cons_append, ← List.append_assoc] at hsplit
    obtain ⟨hencoded, -⟩ := List.append_inj' hsplit rfl
    have hmem : current ∈ tried ++ current :: pending' :=
      List.mem_append_cons_self
    rw [← hencoded] at hmem
    obtain ⟨encoding, -, rfl⟩ := List.mem_map.mp hmem
    cases hidentity

/-- The headers determine the request and its candidates. -/
theorem Accepts.unique {data' : RequestData} {candidates' : List Candidate}
    (h : Accepts crates cfg headers data candidates)
    (h' : Accepts crates cfg headers data' candidates') :
    data' = data ∧ candidates' = candidates := by
  obtain ⟨rawPath, relative, trailingSlash, hmount, hresolve, rfl, rfl⟩ := h
  obtain ⟨rawPath', relative', trailingSlash', hmount', hresolve', rfl, rfl⟩ := h'
  cases hmount.symm.trans hmount'
  cases hresolve.symm.trans hresolve'
  exact ⟨rfl, rfl⟩

/-- A directory behind the identity candidate reaches the index. -/
theorem reachesIndex_of_identity (haccepts : Accepts crates cfg headers data candidates)
    {tried pending : List Candidate} {current : Candidate}
    (hsplit : candidates = tried ++ current :: pending)
    (htried : ∀ candidate ∈ tried, fs candidate.fsPath ≠ some false)
    (hidentity : current.encoding = none) (hdir : fs current.fsPath = some true)
    (hredirect : (!data.trailingSlash && cfg.redirectTrailingSlash) = false)
    (hallowed : cfg.directory ≠ .deny) :
    pending = [] ∧ ReachesIndex cfg data candidates fs := by
  obtain ⟨rawPath, relative, trailingSlash, -, -, rfl, rfl⟩ := haccepts
  obtain ⟨rfl, hpath⟩ := identity_last hsplit hidentity
  refine ⟨rfl, fun candidate hmem hencoded => ?_, ?_, hredirect, hallowed⟩
  · rw [hsplit, List.mem_append, List.mem_singleton] at hmem
    rcases hmem with hmem | rfl
    · exact htried candidate hmem
    · rw [hidentity] at hencoded
      cases hencoded
  · show fs (cfg.root.join relative) = some true
    rw [← hpath]
    exact hdir

/-- The next open takes the next candidate, or the first index file. -/
theorem Progress.openNext (h : Progress crates cfg data candidates fs s)
    (haccount : Accounted cfg s)
    (haccepts : Accepts crates cfg headers data candidates)
    (hno : ¬ReentersIndex crates cfg data candidates fs) {event : IoEvent}
    {rest : List IoEvent} {phase : Phase} {fsPath : PathBuf} {ctx : OpenCtx}
    (hbatch : s.batch = event :: rest) (hread : event.isRead = false)
    (hnext : NextOpen crates cfg s event phase fsPath ctx) :
    Progress crates cfg data candidates fs
      ({ s with batch := rest, phase }.submit
        (.openStat (openRequest cfg s.request fsPath) ctx)
        (.openStat (openRequest cfg s.request fsPath))) := by
  obtain ⟨hresolving, hwork⟩ := haccount.opening hbatch hread
  have hseeking : Seeking fs fsPath ctx ({ s with batch := rest, phase }.submit
      (.openStat (openRequest cfg s.request fsPath) ctx)
      (.openStat (openRequest cfg s.request fsPath))) :=
    seeking_submit (s := { s with batch := rest }) phase hwork ⟨rfl, rfl⟩
  have hopens : ({ s with batch := rest, phase }.submit
      (.openStat (openRequest cfg s.request fsPath) ctx)
      (.openStat (openRequest cfg s.request fsPath))).opens = s.opens + 1 :=
    opens_open _ _
  cases h with
  | idle hphase _ _ =>
      rw [hphase] at hresolving
      cases hresolving
  | @file tried pending current hphase hrequest hsplit htried hcount hcurrent =>
      have hanswer := hcurrent.handled hbatch
      cases hnext with
      | @candidate next pending' hfile hmiss =>
          cases hphase.symm.trans hfile
          have hsplit' : candidates = (tried ++ [current]) ++ next :: pending' := by
            rw [hsplit, List.append_assoc, List.singleton_append]
          refine .file rfl hrequest hsplit' ?_ ?_ hseeking
          · intro other hother
            rcases List.mem_append.mp hother with hother | hother
            · exact htried other hother
            · cases List.mem_singleton.mp hother
              exact Answers.not_file hanswer hmiss
          · rw [hopens]
            rw [List.length_cons] at hcount
            omega
      | index hindex _ => cases hphase.symm.trans hindex
      | @directory handle stat ctx' prefetched request fsPath contentType pending'
          hevent hdir hencoding hdata hredirect hallowed hindex =>
          cases hdata.symm.trans hrequest
          subst hevent
          obtain ⟨rfl, hfs⟩ := hanswer
          rw [hdir] at hfs
          obtain ⟨rfl, hreaches⟩ := reachesIndex_of_identity haccepts hsplit htried
            hencoding hfs hredirect hallowed
          have hfront : indexCandidates crates cfg (requestDir cfg data) =
              [] ++ (fsPath, contentType) :: pending' := hindex
          refine .index rfl hrequest hfront (fun _ h => by cases h) hreaches ?_ hseeking
          have hlength := length_indexCandidates crates cfg (requestDir cfg data)
          rw [requestDir, hindex, List.length_cons] at hlength
          rw [List.length_nil] at hcount
          rw [hopens, openBound]
          omega
  | @index tried pending path contentType hphase hrequest hsplit htried hreaches hcount
      hcurrent =>
      have hanswer := hcurrent.handled hbatch
      cases hnext with
      | candidate hfile _ => cases hphase.symm.trans hfile
      | @index dirFs fsPath contentType' pending' hindex hmiss =>
          cases hphase.symm.trans hindex
          have hsplit' : indexCandidates crates cfg (requestDir cfg data) =
              (tried ++ [(path, contentType)]) ++ (fsPath, contentType') :: pending' := by
            rw [hsplit, List.append_assoc, List.singleton_append]
          refine .index rfl hrequest hsplit' ?_ hreaches ?_ hseeking
          · intro other hother
            rcases List.mem_append.mp hother with hother | hother
            · exact htried other hother
            · cases List.mem_singleton.mp hother
              exact Answers.nothing hanswer hmiss rfl
          · rw [hopens]
            rw [List.length_cons] at hcount
            omega
      | @directory handle stat ctx' prefetched request fsPath contentType' pending'
          hevent hdir _ _ _ _ _ =>
          -- The awaited index file is the first that opens, and a directory.
          subst hevent
          obtain ⟨-, hfs⟩ := hanswer
          rw [hdir] at hfs
          refine absurd ⟨hreaches, ?_⟩ hno
          have hnothing : tried.filterMap (fun entry => fs entry.1) = [] :=
            List.filterMap_eq_nil_iff.mpr htried
          rw [IndexIsDirectory, hsplit, List.filterMap_append, hnothing,
            List.filterMap_cons, hfs]
          rfl
  | finished hover _ =>
      exact absurd hover (not_over_of_resolving hresolving)

/-- A directory read keeps the place in the queue. -/
theorem Progress.readDir (h : Progress crates cfg data candidates fs s)
    (haccount : Accounted cfg s) {event : IoEvent} {rest : List IoEvent}
    (path : PathBuf) (hbatch : s.batch = event :: rest)
    (hread : event.isRead = false) :
    Progress crates cfg data candidates fs
      ({ s with batch := rest }.submit (.readDir path) (.readDir path)) := by
  obtain ⟨hresolving, hwork⟩ := haccount.opening hbatch hread
  have hopens : ({ s with batch := rest }.submit (.readDir path)
      (.readDir path)).opens = s.opens := opens_other rfl
  have hseeking (path' : PathBuf) (ctx : OpenCtx) : Seeking fs path' ctx
      ({ s with batch := rest }.submit (.readDir path) (.readDir path)) :=
    seeking_submit (s := { s with batch := rest }) s.phase hwork trivial
  cases h with
  | idle hphase _ _ =>
      rw [hphase] at hresolving
      cases hresolving
  | file hphase hrequest hsplit htried hcount _ =>
      exact .file hphase hrequest hsplit htried (hopens ▸ hcount) (hseeking _ _)
  | index hphase hrequest hsplit htried hreaches hcount _ =>
      exact .index hphase hrequest hsplit htried hreaches (hopens ▸ hcount)
        (hseeking _ _)
  | finished hover _ =>
      exact absurd hover (not_over_of_resolving hresolving)

/-- The first open takes the first candidate. -/
theorem Progress.accept (h : Progress crates cfg data candidates fs s)
    (haccepts : Accepts crates cfg headers data candidates)
    {data' : RequestData} {candidate : Candidate} {rest : List Candidate}
    (hphase : s.phase = .idle)
    (haccepts' : Accepts crates cfg headers data' (candidate :: rest)) :
    Progress crates cfg data candidates fs
      ({ s with request := some data', waker := true,
                phase := .resolvingFile rest }.submit
        (.openStat (openRequest cfg (some data') candidate.fsPath) candidate.openCtx)
        (.openStat (openRequest cfg (some data') candidate.fsPath))) := by
  obtain ⟨rfl, rfl⟩ := haccepts.unique haccepts'
  cases h with
  | idle _ hwork hnone =>
      have hfront : candidate :: rest = [] ++ candidate :: rest := rfl
      refine .file rfl rfl hfront (fun _ h => by cases h) ?_ ?_
      · have hopens : s.opens + 1 + rest.length = (candidate :: rest).length := by
          rw [hnone, List.length_cons]
          omega
        rw [← hopens]
        exact congrArg (· + rest.length) (opens_open _ _)
      · exact seeking_submit (s := { s with request := some data', waker := true })
          (.resolvingFile rest) hwork ⟨rfl, rfl⟩
  | file hfile _ _ _ _ _ => cases hphase.symm.trans hfile
  | index hindex _ _ _ _ _ _ => cases hphase.symm.trans hindex
  | finished hover _ =>
      rw [hphase] at hover
      rcases hover with hstream | hdone
      · cases hstream
      · cases hdone

/-- A completion answers the awaited open. -/
theorem Progress.complete (h : Progress crates cfg data candidates fs s)
    {before after : List Op} {op : Op} {completion : Completion} {event : IoEvent}
    (hpending : s.pending = before ++ op :: after)
    (hok : (fixedFilesystem headers fs).completes s op completion)
    (hevent : op.onDone completion = some event) :
    Progress crates cfg data candidates fs
      (deliver { s with pending := before ++ after } event) := by
  have hphase := deliver_phase { s with pending := before ++ after } event
  have hopens : (deliver { s with pending := before ++ after } event).opens =
      s.opens := by
    rw [State.opens, deliver_trace]
    rfl
  have hrequest : (deliver { s with pending := before ++ after } event).request =
      s.request := by
    rw [deliver]
    split <;> rfl
  cases h with
  | idle _ hwork _ =>
      rw [(work_eq_zero_iff.mp hwork).1] at hpending
      simp at hpending
  | file hfile hdata hsplit htried hcount hseeking =>
      exact .file (hphase.trans hfile) (hrequest.trans hdata) hsplit htried
        (hopens ▸ hcount) (hseeking.complete hpending hok hevent)
  | index hindex hdata hsplit htried hreaches hcount hseeking =>
      exact .index (hphase.trans hindex) (hrequest.trans hdata) hsplit htried hreaches
        (hopens ▸ hcount) (hseeking.complete hpending hok hevent)
  | finished hover hle =>
      rw [← hphase] at hover
      exact .finished hover (hopens ▸ hle)

/-- Every move of a resolution that does not come back to its index queue makes
progress. -/
theorem progress_move (hmove : Move crates cfg (fixedFilesystem headers fs) s t)
    (haccount : Accounted cfg s)
    (haccepts : Accepts crates cfg headers data candidates)
    (hno : ¬ReentersIndex crates cfg data candidates fs)
    (h : Progress crates cfg data candidates fs s) :
    Progress crates cfg data candidates fs t := by
  cases hmove with
  | reentry _ => exact h.of_eq rfl rfl rfl (fun _ hop => hop) fun _ hevent => hevent
  | hook hook =>
      obtain ⟨depth, commits, -, heq⟩ := onHook_eq s hook
      rw [heq]
      cases hphase : s.phase with
      | streaming st => exact h.finish (Or.inl rfl) (opens_other rfl)
      | _ =>
          refine h.of_eq hphase.symm rfl (opens_other rfl) (fun _ hop => hop)
            fun _ hevent => hevent
  | refuse _ _ _ => exact h.finish (Or.inr rfl) (opens_other rfl)
  | accept hphase hheaders hdata =>
      cases hheaders
      exact h.accept haccepts hphase hdata
  | complete hpending hok hevent => exact h.complete hpending hok hevent
  | commit _ => exact h.of_eq rfl rfl rfl (fun _ hop => hop) fun _ hevent => hevent
  | drain hbatch _ =>
      refine h.of_eq rfl rfl rfl (fun _ hop => hop) fun event hevent => ?_
      rw [hbatch, List.append_nil]
      exact hevent
  | openNext hbatch hread _ hnext =>
      exact h.openNext haccount haccepts hno hbatch hread hnext
  | readDir path hbatch hread => exact h.readDir haccount path hbatch hread
  | respond _ _ _ _ _ => exact h.finish (Or.inr rfl) (opens_other rfl)
  | sendHeaders _ _ _ => exact h.finish (Or.inr rfl) (opens_other rfl)
  | beginStreaming _ _ _ _ _ => exact h.finish (Or.inl rfl) (opens_other rfl)
  | readOk _ _ => exact h.finish (Or.inl rfl) rfl
  | readError _ _ => exact h.finish (Or.inr rfl) (opens_other rfl)
  | ignore hbatch _ _ =>
      exact h.of_eq rfl rfl rfl (fun _ hop => hop) fun _ => mem_events_of_rest hbatch
  | discard hphase => exact h.finish (Or.inr hphase) rfl
  | flushMore _ _ _ _ => exact h.finish (Or.inl rfl) (opens_other rfl)
  | flushLast _ _ _ _ => exact h.finish (Or.inr rfl) (opens_other rfl)
  | issueSkip _ _ _ _ => exact h.finish (Or.inl rfl) rfl
  | issueRead _ _ _ _ => exact h.finish (Or.inl rfl) (opens_other rfl)
  | streamComplete _ =>
      refine h.of_eq rfl rfl rfl (fun _ hop => hop) fun event hevent => ?_
      exact List.mem_append_right _ hevent

/-- A resolution that does not come back to its index queue opens every
candidate and every index file at most once. -/
theorem opens_le_of_not_reenters (haccepts : Accepts crates cfg headers data candidates)
    (hno : ¬ReentersIndex crates cfg data candidates fs) {actions : List Action}
    (hrun : StreamRun crates cfg (fixedFilesystem headers fs) State.initial actions s) :
    s.opens ≤ openBound cfg candidates := by
  have hinvariant : (Accounted cfg s ∧ Progress crates cfg data candidates fs s) ∧
      s.batch = [] := by
    refine run_invariant (I := fun s => Accounted cfg s ∧
      Progress crates cfg data candidates fs s) ?_ rfl ?_ hrun
    · rintro u v hmove ⟨haccount, hprogress⟩
      exact ⟨accounted_move hmove haccount,
        progress_move hmove haccount haccepts hno hprogress⟩
    · exact ⟨accounted_initial cfg, .idle rfl rfl rfl⟩
  exact hinvariant.1.2.opens_le

end Progress

end EnvoyFiles.Filter
