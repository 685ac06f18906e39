import EnvoyFiles.Filter.Stores

/-!
# The sequential lookup

What a request finds on a filesystem that does not change, as one function: the first
encoded variant that is a regular file, else the requested path itself, else what stands
for a directory.  The filter looks it up one callback at a time, and its response is that
of the function.
-/

namespace EnvoyFiles.Filter

/-! ## The lookup as a function -/

/-- What a request finds. -/
inductive Outcome where
  /-- A response without a body. -/
  | reply (status : ℕ) (headers : List (String × String))
  /-- The listing of a directory. -/
  | page (entries : List DirEntryInfo)
  /-- An opened file and what its open carries. -/
  | file (opened : StoredFile) (ctx : OpenCtx)

/-- The response to what a request finds; `none` where a header or a date of it cannot
be built. -/
def Outcome.response (crates : Crates) (cfg : Config) (data : RequestData) :
    Outcome → Option Response
  | .reply status headers => some ⟨.sendResponse status headers none, []⟩
  | .page entries =>
      (listingPage crates cfg data entries).map fun html =>
        ⟨.sendResponse 200 [("content-type", "text/html; charset=utf-8")] (some html), []⟩
  | .file opened ctx =>
      (planResponse crates (requestFacts cfg data opened.stat ctx) (fileMeta opened.stat)).map
        fun plan =>
          ⟨.sendResponseHeaders (responseHeaders plan) (bodyChunks cfg plan.body).isEmpty,
            plannedBody opened.content plan.body⟩

def errorOutcome (error : IoError) : Outcome :=
  .reply (statusForIoError error.kind error.rawOsError) []

/-- The file that opens at a path, a directory included. -/
def Store.found (store : Store) (path : PathBuf) : Option StoredFile :=
  (store.opens path).toOption

/-- The regular file that opens at a path. -/
def Store.regular (store : Store) (path : PathBuf) : Option StoredFile :=
  (store.found path).filter fun file => !file.stat.isDir

section Stores

variable {store : Store} {path : PathBuf} {file : StoredFile}

theorem found_of_error {error : IoError} (h : store.opens path = .error error) :
    store.found path = none := by
  rw [Store.found, h]
  rfl

theorem found_of_ok (h : store.opens path = .ok file) : store.found path = some file := by
  rw [Store.found, h]
  rfl

theorem regular_of_error {error : IoError} (h : store.opens path = .error error) :
    store.regular path = none := by
  rw [Store.regular, found_of_error h, Option.filter_none]

theorem regular_of_directory (h : store.opens path = .ok file) (hdir : file.stat.isDir = true) :
    store.regular path = none := by
  rw [Store.regular, found_of_ok h, Option.filter_some, hdir]
  rfl

theorem regular_of_file (h : store.opens path = .ok file) (hfile : file.stat.isDir = false) :
    store.regular path = some file := by
  rw [Store.regular, found_of_ok h, Option.filter_some, hfile]
  rfl

end Stores

section Lookup

variable (crates : Crates) (cfg : Config) (store : Store) (data : RequestData)

/-- The first encoded variant that opens as a regular file, with its encoding and the
content type of the path without its suffix. -/
def firstVariant (encodings : List Encoding) : Option Outcome :=
  encodings.findSome? fun encoding =>
    (store.regular (cfg.root.join (data.relative ++ encoding.fileSuffix))).map fun file =>
      .file file ⟨some encoding.contentEncoding,
        configuredContentType crates cfg data.relative, true⟩

/-- The first index file that opens. -/
def firstIndex : Option Outcome :=
  cfg.indexFiles.findSome? fun name =>
    (store.found ((requestDir cfg data).join name)).map fun file =>
      .file file ⟨none, configuredContentType crates cfg name, false⟩

/-- A directory without an index file. -/
def fallbackOutcome : Outcome :=
  match cfg.directory with
  | .listing =>
      match store.lists (requestDir cfg data) with
      | .ok entries => .page entries
      | .error error => errorOutcome error
  | .index | .deny => .reply 404 []

def directoryOutcome : Outcome :=
  if !data.trailingSlash && cfg.redirectTrailingSlash then
    .reply 301 [("location", urlFor cfg data.relative ++ "/")]
  else
    (firstIndex crates cfg store data).getD (fallbackOutcome cfg store data)

/-- The requested path itself. -/
def identityOutcome (encodings : List Encoding) : Outcome :=
  match store.opens (requestDir cfg data) with
  | .error error => errorOutcome error
  | .ok file =>
      if file.stat.isDir then directoryOutcome crates cfg store data
      else .file file ⟨none, configuredContentType crates cfg data.relative,
        !encodings.isEmpty⟩

/-- What a request finds whose path accepts `encodings`. -/
def sequentialLookup (encodings : List Encoding) : Outcome :=
  (firstVariant crates cfg store data encodings).getD
    (identityOutcome crates cfg store data encodings)

end Lookup

/-- The request of a path that is resolved, and the encodings it accepts. -/
def acceptedRequest (crates : Crates) (cfg : Config) (headers : List (Bytes × Bytes)) :
    Option (RequestData × List Encoding) :=
  let raw := RawRequestHeaders.collect headers
  (mountedPath cfg (raw.path.getD "")).bind fun rawPath =>
    match Path.resolveRequestPath rawPath (pathPolicy cfg) with
    | .reject _ => none
    | .ok relative trailingSlash =>
        some (requestData raw relative trailingSlash,
          acceptedEncodings crates cfg trailingSlash raw.acceptEncoding)

/-- The response to a request: a refusal, or the response to what it finds. -/
def sequentialResponse (crates : Crates) (cfg : Config) (store : Store)
    (headers : List (Bytes × Bytes)) : Option Response :=
  match refusal cfg headers with
  | some reaction => (reaction.answer cfg).map fun call => ⟨call, []⟩
  | none =>
      (acceptedRequest crates cfg headers).bind fun (data, encodings) =>
        (sequentialLookup crates cfg store data encodings).response crates cfg data

/-- No index file of the requested directory opens as a directory. -/
def NoIndexDirectory (crates : Crates) (cfg : Config) (store : Store)
    (headers : List (Bytes × Bytes)) : Prop :=
  ∀ data encodings, acceptedRequest crates cfg headers = some (data, encodings) →
    ∀ name ∈ cfg.indexFiles, ∀ file, store.opens ((requestDir cfg data).join name) = .ok file →
      file.stat.isDir = false

/-! ## What is still to be looked up -/

section Remaining

variable {crates : Crates} {cfg : Config} {store : Store} {data : RequestData}

/-- The outcome of the index files that are left. -/
def indexOutcome (cfg : Config) (store : Store) (data : RequestData)
    (pending : List (PathBuf × String)) : Outcome :=
  (pending.findSome? fun entry =>
    (store.found entry.1).map fun file => .file file ⟨none, entry.2, false⟩).getD
    (fallbackOutcome cfg store data)

/-- The outcome of the candidates that are left. -/
def candidateOutcome (crates : Crates) (cfg : Config) (store : Store) (data : RequestData) :
    List Candidate → Outcome
  | [] => .reply 404 []
  | candidate :: rest =>
      match store.opens candidate.fsPath with
      | .error error =>
          if rest.isEmpty then errorOutcome error
          else candidateOutcome crates cfg store data rest
      | .ok file =>
          if file.stat.isDir then
            if candidate.encoding.isSome then candidateOutcome crates cfg store data rest
            else directoryOutcome crates cfg store data
          else .file file candidate.openCtx

theorem directoryOutcome_eq : directoryOutcome crates cfg store data =
    if !data.trailingSlash && cfg.redirectTrailingSlash then
      .reply 301 [("location", urlFor cfg data.relative ++ "/")]
    else
      indexOutcome cfg store data (indexCandidates crates cfg (requestDir cfg data)) := by
  rw [directoryOutcome, indexOutcome, firstIndex, indexCandidates]
  rw [List.findSome?_map]
  rfl

/-- The candidates of a request find what the sequential lookup finds. -/
theorem candidateOutcome_eq {encodings : List Encoding} {addVary : Bool} :
    candidateOutcome crates cfg store data
        (encodings.map (fun encoding =>
          { fsPath := cfg.root.join (data.relative ++ encoding.fileSuffix)
            encoding := some encoding.contentEncoding
            contentType := configuredContentType crates cfg data.relative
            addVary := true : Candidate }) ++
          [⟨requestDir cfg data, none, configuredContentType crates cfg data.relative,
            addVary⟩]) =
      (firstVariant crates cfg store data encodings).getD
        (candidateOutcome crates cfg store data
          [⟨requestDir cfg data, none, configuredContentType crates cfg data.relative,
            addVary⟩]) := by
  induction encodings with
  | nil => rfl
  | cons encoding rest ih =>
      rw [firstVariant] at ih ⊢
      rw [List.map_cons, List.cons_append, List.findSome?_cons, candidateOutcome, ih]
      dsimp only
      cases hopens : store.opens (cfg.root.join (data.relative ++ encoding.fileSuffix)) with
      | error error =>
          rw [regular_of_error hopens]
          simp
      | ok file =>
          dsimp only
          cases hdir : file.stat.isDir with
          | true =>
              rw [regular_of_directory hopens hdir]
              rfl
          | false =>
              rw [regular_of_file hopens hdir]
              rfl

theorem buildFileCandidates_outcome (accept : Option String) :
    candidateOutcome crates cfg store data
        (buildFileCandidates crates cfg data.relative data.trailingSlash accept) =
      sequentialLookup crates cfg store data
        (acceptedEncodings crates cfg data.trailingSlash accept) := by
  unfold buildFileCandidates sequentialLookup
  dsimp only
  rw [List.isEmpty_map]
  exact candidateOutcome_eq

end Remaining

/-! ## The filter's lookup -/

/-- The index files of a directory, none of which opens as a directory. -/
def IndexFiles (store : Store) (pending : List (PathBuf × String)) : Prop :=
  ∀ entry ∈ pending, ∀ file, store.opens entry.1 = .ok file → file.stat.isDir = false

/-- An awaited operation that leads to the outcome. -/
inductive SeeksOutcome (crates : Crates) (cfg : Config) (store : Store) (data : RequestData)
    (outcome : Outcome) : Phase → Op → Prop where
  | file {candidate : Candidate} {pending : List Candidate} :
      candidateOutcome crates cfg store data (candidate :: pending) = outcome →
      SeeksOutcome crates cfg store data outcome (.resolvingFile pending)
        (.openStat (openRequest cfg (some data) candidate.fsPath) candidate.openCtx)
  | index {path : PathBuf} {contentType : String} {pending : List (PathBuf × String)} :
      IndexFiles store ((path, contentType) :: pending) →
      indexOutcome cfg store data ((path, contentType) :: pending) = outcome →
      SeeksOutcome crates cfg store data outcome (.resolvingIndex (requestDir cfg data) pending)
        (.openStat (openRequest cfg (some data) path) ⟨none, contentType, false⟩)
  | list {phase : Phase} :
      cfg.directory = .listing → fallbackOutcome cfg store data = outcome →
      SeeksOutcome crates cfg store data outcome phase (.readDir (requestDir cfg data))

/-- The opens and directory reads that may still follow. -/
def lookupRank (cfg : Config) : Phase → Op → ℕ
  | _, .readDir _ => 0
  | .resolvingFile pending, _ => pending.length + cfg.indexFiles.length + 2
  | .resolvingIndex _ pending, _ => pending.length + 1
  | _, _ => 0

/-- A reaction that answers with the outcome. -/
inductive Realizes (crates : Crates) (cfg : Config) (contents : FileHandle → Bytes)
    (data : RequestData) : Outcome → Reaction → Prop where
  | reply {status : ℕ} {headers : List (String × String)} :
      Realizes crates cfg contents data (.reply status headers) (.reply status headers none)
  | page {entries : List DirEntryInfo} {html : Bytes} :
      listingPage crates cfg data entries = some html →
      Realizes crates cfg contents data (.page entries)
        (.reply 200 [("content-type", "text/html; charset=utf-8")] (some html))
  | serve {opened : StoredFile} {ctx : OpenCtx} {plan : ResponsePlan} {handle : FileHandle}
      {prefetched : Bytes} :
      opened.stat.isDir = false →
      planResponse crates (requestFacts cfg data opened.stat ctx) (fileMeta opened.stat) =
        some plan →
      prefetched <+: opened.content → contents handle = opened.content →
      Realizes crates cfg contents data (.file opened ctx) (.serve plan handle prefetched)

/-- A reaction that answers with the outcome, or goes on to it in fewer than `n` opens and
directory reads.  There is none only where the response cannot be built. -/
inductive Leads (crates : Crates) (cfg : Config) (store : Store)
    (contents : FileHandle → Bytes) (data : RequestData) (outcome : Outcome) (phase : Phase)
    (n : ℕ) : Option Reaction → Prop where
  | realizes {reaction : Reaction} : Realizes crates cfg contents data outcome reaction →
      Leads crates cfg store contents data outcome phase n (some reaction)
  | goesOn {reaction : Reaction} {phase' : Phase} {op : Op} :
      reaction.awaits cfg data phase = some (phase', op) →
      SeeksOutcome crates cfg store data outcome phase' op → lookupRank cfg phase' op < n →
      Leads crates cfg store contents data outcome phase n (some reaction)
  | panics : outcome.response crates cfg data = none →
      Leads crates cfg store contents data outcome phase n none

section Steps

variable {crates : Crates} {cfg : Config} {store : Store} {contents : FileHandle → Bytes}
  {headers : List (Bytes × Bytes)} {data : RequestData} {outcome : Outcome} {phase : Phase}
  {n : ℕ}

theorem fallback_leads (hn : 0 < n) :
    Leads crates cfg store contents data (fallbackOutcome cfg store data) phase n
      (some (Reaction.fallback cfg (requestDir cfg data))) := by
  cases hdirectory : cfg.directory with
  | listing =>
      rw [Reaction.fallback]
      rw [hdirectory]
      exact .goesOn rfl (.list hdirectory rfl) hn
  | index =>
      rw [Reaction.fallback, fallbackOutcome]
      rw [hdirectory]
      exact .realizes .reply
  | deny =>
      rw [Reaction.fallback, fallbackOutcome]
      rw [hdirectory]
      exact .realizes .reply

theorem nextIndex_leads {pending : List (PathBuf × String)} (hn : pending.length < n)
    (hfiles : IndexFiles store pending) :
    Leads crates cfg store contents data (indexOutcome cfg store data pending) phase n
      (some (Reaction.nextIndex cfg (requestDir cfg data) pending)) := by
  cases pending with
  | nil => exact fallback_leads (Nat.zero_lt_of_lt hn)
  | cons entry rest => exact .goesOn rfl (.index hfiles rfl) hn

theorem nextCandidate_leads {pending : List Candidate}
    (hn : pending.length + cfg.indexFiles.length + 1 < n) :
    Leads crates cfg store contents data (candidateOutcome crates cfg store data pending) phase
      n (some (Reaction.nextCandidate pending)) := by
  cases pending with
  | nil => exact .realizes .reply
  | cons candidate rest =>
      refine .goesOn rfl (.file rfl) ?_
      rw [List.length_cons] at hn
      change rest.length + cfg.indexFiles.length + 2 < n
      omega

theorem atDirectory_leads (hdirectory : cfg.directory ≠ .deny)
    (hn : cfg.indexFiles.length < n)
    (hfiles : IndexFiles store (indexCandidates crates cfg (requestDir cfg data))) :
    Leads crates cfg store contents data (directoryOutcome crates cfg store data) phase n
      (some (Reaction.atDirectory crates cfg data)) := by
  rw [directoryOutcome_eq]
  rw [Reaction.atDirectory]
  by_cases hredirect : (!data.trailingSlash && cfg.redirectTrailingSlash) = true
  · rw [if_pos hredirect, if_pos hredirect]
    exact .realizes .reply
  · rw [if_neg hredirect, if_neg hredirect, if_neg hdirectory]
    apply nextIndex_leads ?_ hfiles
    rw [length_indexCandidates]
    exact hn

/-- A regular file is served, unless its response cannot be built. -/
theorem opened_realizes {opened : StoredFile} {ctx : OpenCtx} {handle : FileHandle}
    {prefetched : Bytes} (hfile : opened.stat.isDir = false)
    (hprefetch : prefetched <+: opened.content) (hcontent : contents handle = opened.content) :
    (∃ reaction,
        react crates cfg data phase (.opened handle opened.stat ctx prefetched) = some reaction ∧
          Realizes crates cfg contents data (.file opened ctx) reaction) ∨
      (react crates cfg data phase (.opened handle opened.stat ctx prefetched) = none ∧
        (Outcome.file opened ctx).response crates cfg data = none) := by
  rw [react_file hfile]
  cases hplan : planResponse crates (requestFacts cfg data opened.stat ctx)
    (fileMeta opened.stat) with
  | none =>
      refine Or.inr ⟨rfl, ?_⟩
      rw [Outcome.response, hplan, Option.map_none]
  | some plan => exact Or.inl ⟨_, rfl, .serve hfile hplan hprefetch hcontent⟩

theorem opened_leads {opened : StoredFile} {ctx : OpenCtx} {handle : FileHandle}
    {prefetched : Bytes} (hfile : opened.stat.isDir = false)
    (hprefetch : prefetched <+: opened.content) (hcontent : contents handle = opened.content) :
    Leads crates cfg store contents data (.file opened ctx) phase n
      (react crates cfg data phase (.opened handle opened.stat ctx prefetched)) := by
  rcases @opened_realizes crates cfg contents data phase opened ctx handle prefetched hfile
    hprefetch hcontent with ⟨reaction, hreact, hrealizes⟩ | ⟨hreact, hnone⟩
  · rw [hreact]
    exact .realizes hrealizes
  · rw [hreact]
    exact .panics hnone

theorem candidate_leads {candidate : Candidate} {pending : List Candidate} {event : IoEvent}
    (hdirectory : cfg.directory ≠ .deny)
    (hfiles : IndexFiles store (indexCandidates crates cfg (requestDir cfg data)))
    (hyields : (store.serves contents headers).yields
      (.openStat (openRequest cfg (some data) candidate.fsPath) candidate.openCtx) event) :
    Leads crates cfg store contents data
      (candidateOutcome crates cfg store data (candidate :: pending)) (.resolvingFile pending)
      (pending.length + cfg.indexFiles.length + 2)
      (react crates cfg data (.resolvingFile pending) event) := by
  rw [candidateOutcome]
  rcases serves_open hyields with
    ⟨handle, opened, prefetched, hopens, rfl, hprefetch, hcontent⟩ | ⟨error, hopens, rfl⟩
  · change store.opens candidate.fsPath = _ at hopens
    rw [hopens]
    dsimp only
    by_cases hdir : opened.stat.isDir = true
    · rw [if_pos hdir]
      have hreact : react crates cfg data (.resolvingFile pending)
          (.opened handle opened.stat candidate.openCtx prefetched) =
          if candidate.encoding.isSome then some (.nextCandidate pending)
          else some (.atDirectory crates cfg data) := if_pos hdir
      rw [hreact]
      split
      · exact nextCandidate_leads (by omega)
      · exact atDirectory_leads hdirectory (by omega) hfiles
    · rw [if_neg hdir]
      rw [Bool.not_eq_true] at hdir
      exact opened_leads hdir hprefetch (hcontent hdir)
  · change store.opens candidate.fsPath = _ at hopens
    rw [hopens]
    cases pending with
    | nil => exact .realizes .reply
    | cons next rest => exact nextCandidate_leads (Nat.lt_succ_self _)

theorem indexOutcome_cons {path : PathBuf} {contentType : String}
    {pending : List (PathBuf × String)} :
    indexOutcome cfg store data ((path, contentType) :: pending) =
      match store.found path with
      | some file => .file file ⟨none, contentType, false⟩
      | none => indexOutcome cfg store data pending := by
  rw [indexOutcome]
  rw [List.findSome?_cons]
  cases store.found path <;> rfl

theorem index_leads {path : PathBuf} {contentType : String}
    {pending : List (PathBuf × String)} {event : IoEvent}
    (hfiles : IndexFiles store ((path, contentType) :: pending))
    (hyields : (store.serves contents headers).yields
      (.openStat (openRequest cfg (some data) path) ⟨none, contentType, false⟩) event) :
    Leads crates cfg store contents data
      (indexOutcome cfg store data ((path, contentType) :: pending))
      (.resolvingIndex (requestDir cfg data) pending) (pending.length + 1)
      (react crates cfg data (.resolvingIndex (requestDir cfg data) pending) event) := by
  rw [indexOutcome_cons]
  rcases serves_open hyields with
    ⟨handle, opened, prefetched, hopens, rfl, hprefetch, hcontent⟩ | ⟨error, hopens, rfl⟩
  · change store.opens path = _ at hopens
    have hfile := hfiles _ List.mem_cons_self opened hopens
    rw [found_of_ok hopens]
    exact opened_leads hfile hprefetch (hcontent hfile)
  · change store.opens path = _ at hopens
    rw [found_of_error hopens]
    apply nextIndex_leads (Nat.lt_succ_self _)
    intro entry hentry
    exact hfiles entry (List.mem_cons_of_mem _ hentry)

theorem list_leads {event : IoEvent} (hdirectory : cfg.directory = .listing)
    (hyields : (store.serves contents headers).yields (.readDir (requestDir cfg data)) event) :
    Leads crates cfg store contents data (fallbackOutcome cfg store data) phase n
      (react crates cfg data phase event) := by
  rw [serves_list hyields]
  rw [react, fallbackOutcome]
  rw [hdirectory]
  dsimp only
  cases hlists : store.lists (requestDir cfg data) with
  | error error => exact .realizes .reply
  | ok entries =>
      rw [Reaction.ofListing]
      dsimp only
      cases hpage : listingPage crates cfg data entries with
      | none =>
          refine .panics ?_
          unfold Outcome.response
          dsimp only
          rw [hpage, Option.map_none]
      | some html => exact .realizes (.page hpage)

/-- Every reaction to what the store delivers leads to the outcome. -/
theorem seeksOutcome_leads {op : Op} {event : IoEvent} (hdirectory : cfg.directory ≠ .deny)
    (hfiles : IndexFiles store (indexCandidates crates cfg (requestDir cfg data)))
    (h : SeeksOutcome crates cfg store data outcome phase op)
    (hyields : (store.serves contents headers).yields op event) :
    Leads crates cfg store contents data outcome phase (lookupRank cfg phase op)
      (react crates cfg data phase event) := by
  cases h with
  | file houtcome =>
      rw [← houtcome]
      exact candidate_leads hdirectory hfiles hyields
  | index hpending houtcome =>
      rw [← houtcome]
      exact index_leads hpending hyields
  | list hlisting houtcome =>
      rw [← houtcome]
      exact list_leads hlisting hyields

end Steps

/-! ## Refinement -/

section Refinement

variable {crates : Crates} {cfg : Config} {store : Store} {contents : FileHandle → Bytes}
  {headers : List (Bytes × Bytes)} {data : RequestData} {candidates : List Candidate}

theorem acceptedRequest_of_accepts (h : Accepts crates cfg headers data candidates) :
    ∃ encodings, acceptedRequest crates cfg headers = some (data, encodings) ∧
      candidateOutcome crates cfg store data candidates =
        sequentialLookup crates cfg store data encodings := by
  obtain ⟨rawPath, relative, trailingSlash, hmounted, hresolve, rfl, rfl⟩ := h
  refine ⟨acceptedEncodings crates cfg trailingSlash
    (RawRequestHeaders.collect headers).acceptEncoding, ?_, ?_⟩
  · unfold acceptedRequest
    dsimp only
    rw [hmounted, Option.bind_some, hresolve]
  · exact buildFileCandidates_outcome _

theorem acceptedRequest_resolved {encodings : List Encoding}
    (h : acceptedRequest crates cfg headers = some (data, encodings)) :
    ∃ rawPath relative trailingSlash,
      mountedPath cfg ((RawRequestHeaders.collect headers).path.getD "") = some rawPath ∧
        Path.resolveRequestPath rawPath (pathPolicy cfg) = .ok relative trailingSlash ∧
        data = requestData (RawRequestHeaders.collect headers) relative trailingSlash ∧
        encodings = acceptedEncodings crates cfg trailingSlash
          (RawRequestHeaders.collect headers).acceptEncoding := by
  unfold acceptedRequest at h
  dsimp only at h
  obtain ⟨rawPath, hmounted, hresolved⟩ := Option.bind_eq_some_iff.mp h
  cases hresolve : Path.resolveRequestPath rawPath (pathPolicy cfg) with
  | reject reason =>
      rw [hresolve] at hresolved
      nomatch hresolved
  | ok relative trailingSlash =>
      rw [hresolve] at hresolved
      obtain ⟨hdata, hencodings⟩ := Prod.mk.inj (Option.some.inj hresolved)
      exact ⟨rawPath, relative, trailingSlash, hmounted, hresolve, hdata.symm, hencodings.symm⟩

/-- What the filter awaits leads to the response. -/
def AwaitsRequest (crates : Crates) (cfg : Config) (store : Store) (headers : List (Bytes × Bytes))
    (data : RequestData) (phase : Phase) (op : Op) : Prop :=
  IndexFiles store (indexCandidates crates cfg (requestDir cfg data)) ∧
    ∃ outcome, outcome.response crates cfg data = sequentialResponse crates cfg store headers ∧
      SeeksOutcome crates cfg store data outcome phase op

/-- What the filter answers with is the response. -/
def AnswersRequest (crates : Crates) (cfg : Config) (store : Store) (contents : FileHandle → Bytes)
    (headers : List (Bytes × Bytes)) (reaction : Reaction) : Prop :=
  refusal cfg headers = some reaction ∨
    ∃ data outcome, outcome.response crates cfg data =
        sequentialResponse crates cfg store headers ∧
      Realizes crates cfg contents data outcome reaction

theorem seeksOutcome_isRead {outcome : Outcome} {phase : Phase} {op : Op}
    (h : SeeksOutcome crates cfg store data outcome phase op) : op.isRead = false := by
  cases h <;> rfl

theorem realizes_awaits {outcome : Outcome} {phase : Phase} {reaction : Reaction}
    (h : Realizes crates cfg contents data outcome reaction) :
    reaction.awaits cfg data phase = none := by
  cases h <;> rfl

theorem awaits_answer {phase phase' : Phase} {op : Op} {reaction : Reaction}
    (h : reaction.awaits cfg data phase = some (phase', op)) :
    reaction.answer cfg = none := by
  cases reaction with
  | seek _ _ _ => rfl
  | list _ => rfl
  | _ => nomatch h

section Reactions

variable {outcome : Outcome} {phase phase' : Phase} {n : ℕ} {reaction : Reaction} {op : Op}
  {call : Call}

/-- A reaction that awaits something seeks the outcome closer to the end. -/
theorem Leads.next (h : Leads crates cfg store contents data outcome phase n (some reaction))
    (hnext : reaction.awaits cfg data phase = some (phase', op)) :
    SeeksOutcome crates cfg store data outcome phase' op ∧ lookupRank cfg phase' op < n := by
  cases h with
  | realizes hrealizes =>
      rw [realizes_awaits hrealizes] at hnext
      cases hnext
  | goesOn hnext' hseeks hless =>
      cases hnext.symm.trans hnext'
      exact ⟨hseeks, hless⟩

/-- A reaction that answers realizes the outcome. -/
theorem Leads.realized (h : Leads crates cfg store contents data outcome phase n (some reaction))
    (hanswer : reaction.answer cfg = some call) :
    Realizes crates cfg contents data outcome reaction := by
  cases h with
  | realizes hrealizes => exact hrealizes
  | goesOn hnext _ _ =>
      rw [awaits_answer hnext] at hanswer
      cases hanswer

theorem Leads.panicked (h : Leads crates cfg store contents data outcome phase n none) :
    outcome.response crates cfg data = none := by
  cases h with
  | panics hnone => exact hnone

end Reactions

theorem sequential_lookupRule (hdirectory : cfg.directory ≠ .deny)
    (hindex : NoIndexDirectory crates cfg store headers) :
    LookupRule crates cfg (store.serves contents headers)
      (AwaitsRequest crates cfg store headers)
      (AnswersRequest crates cfg store contents headers) where
  refuse := by
    rintro headers' reaction rfl hrefusal
    exact Or.inl hrefusal
  start := by
    rintro headers' data candidate rest rfl hnone haccepts
    obtain ⟨encodings, hrequest, houtcome⟩ :=
      @acceptedRequest_of_accepts crates cfg store headers' data _ haccepts
    constructor
    · intro entry hentry file hopens
      obtain ⟨name, hname, rfl⟩ := List.mem_map.mp hentry
      exact hindex data encodings hrequest name hname file hopens
    · refine ⟨_, ?_, .file houtcome⟩
      rw [sequentialResponse]
      rw [hnone]
      dsimp only
      rw [hrequest, Option.bind_some]
  next := by
    rintro data phase op event reaction phase' op' - ⟨hfiles, outcome, hresponse, hseeks⟩
      hyields hreact hnext
    have hleads := seeksOutcome_leads hdirectory hfiles hseeks hyields
    rw [hreact] at hleads
    exact ⟨hfiles, outcome, hresponse, (hleads.next hnext).1⟩
  answer := by
    rintro data phase op event reaction call - ⟨hfiles, outcome, hresponse, hseeks⟩
      hyields hreact hanswer
    have hleads := seeksOutcome_leads hdirectory hfiles hseeks hyields
    rw [hreact] at hleads
    exact Or.inr ⟨data, outcome, hresponse, hleads.realized hanswer⟩

theorem sequential_lookupRank (hcontents : Function.Surjective contents)
    (hdirectory : cfg.directory ≠ .deny)
    (hresponse : sequentialResponse crates cfg store headers ≠ none) :
    LookupRank crates cfg (store.serves contents headers)
      (AwaitsRequest crates cfg store headers) (lookupRank cfg) where
  requests := ⟨headers, rfl⟩
  completes := by
    rintro data phase op ⟨-, outcome, -, hseeks⟩
    exact serves_completes hcontents (seeksOutcome_isRead hseeks)
  reacts := by
    rintro data phase op event - ⟨hfiles, outcome, hsame, hseeks⟩ hyields
    have hleads := seeksOutcome_leads hdirectory hfiles hseeks hyields
    cases hreact : react crates cfg data phase event with
    | some reaction => exact ⟨reaction, rfl⟩
    | none =>
        rw [hreact] at hleads
        exact absurd (hsame.symm.trans hleads.panicked) hresponse
  decreases := by
    rintro data phase op event reaction phase' op' - ⟨hfiles, outcome, -, hseeks⟩ hyields
      hreact hnext
    have hleads := seeksOutcome_leads hdirectory hfiles hseeks hyields
    rw [hreact] at hleads
    exact (hleads.next hnext).2

/-- Behind the answer of a refused request comes nothing. -/
theorem refusal_sends {reaction : Reaction} {call : Call} {w s : State}
    (h : refusal cfg headers = some reaction) (hanswer : reaction.answer cfg = some call)
    (hfresh : Fresh w)
    (hmoves : Moves crates cfg (store.serves contents headers) (reaction.apply cfg w).1 s) :
    Sends [] s.trace := by
  obtain ⟨status, replyHeaders, rfl, -⟩ := refusal_reply h
  exact reply_sends hfresh hmoves

/-- Behind the answer that realizes an outcome comes the response to it. -/
theorem realizes_response {outcome : Outcome} {reaction : Reaction} {call : Call} {w s : State}
    (hchunk : 1 ≤ cfg.chunkSize) (h : Realizes crates cfg contents data outcome reaction)
    (hanswer : reaction.answer cfg = some call) (hfresh : Fresh w)
    (hmoves : Moves crates cfg (store.serves contents headers) (reaction.apply cfg w).1 s) :
    ∃ sent, outcome.response crates cfg data = some ⟨call, sent⟩ ∧ Sends sent s.trace := by
  cases h with
  | reply =>
      cases hanswer
      exact ⟨[], rfl, reply_sends hfresh hmoves⟩
  | page hhtml =>
      cases hanswer
      refine ⟨[], ?_, reply_sends hfresh hmoves⟩
      unfold Outcome.response
      dsimp only
      rw [hhtml, Option.map_some]
  | @serve opened ctx plan handle prefetched hfile hplan hprefetch hcontent =>
      cases hanswer
      refine ⟨plannedBody opened.content plan.body, ?_, ?_⟩
      · unfold Outcome.response
        dsimp only
        rw [hplan, Option.map_some]
      · exact serve_sends hplan (opened.size_eq hfile) hchunk hprefetch hcontent hfresh hmoves

/-- Behind an answer comes what belongs to it. -/
theorem answers_response {reaction : Reaction} {call : Call} {w s : State}
    (hchunk : 1 ≤ cfg.chunkSize) (h : AnswersRequest crates cfg store contents headers reaction)
    (hanswer : reaction.answer cfg = some call) (hfresh : Fresh w)
    (hmoves : Moves crates cfg (store.serves contents headers) (reaction.apply cfg w).1 s) :
    ∃ sent, sequentialResponse crates cfg store headers = some ⟨call, sent⟩ ∧
      Sends sent s.trace := by
  rcases h with hrefusal | ⟨data, outcome, hresponse, hrealizes⟩
  · refine ⟨[], ?_, refusal_sends hrefusal hanswer hfresh hmoves⟩
    rw [sequentialResponse]
    rw [hrefusal]
    dsimp only
    rw [hanswer, Option.map_some]
  · rw [← hresponse]
    exact realizes_response hchunk hrealizes hanswer hfresh hmoves

/-- On every filesystem that does not change and in which no index file is a directory,
the response to a request is that of the sequential lookup. -/
theorem lookup_refines_sequential (hchunk : 1 ≤ cfg.chunkSize)
    (hcontents : Function.Surjective contents)
    (hdirectory : cfg.directory = .index ∨ cfg.directory = .listing)
    (hindex : NoIndexDirectory crates cfg store headers) :
    Responds crates cfg (store.serves contents headers)
      (sequentialResponse crates cfg store headers) := by
  have hallowed : cfg.directory ≠ .deny := by
    intro hdeny
    rw [hdeny] at hdirectory
    rcases hdirectory with hindex | hlisting
    · nomatch hindex
    · nomatch hlisting
  have hrule := @sequential_lookupRule crates cfg store contents headers hallowed hindex
  constructor
  · intro actions s call hrun hanswer
    obtain ⟨w, reaction, hfresh, hgood, hreaction, hmoves⟩ :=
      (lookup_rule hrule hrun).answer_good hanswer
    exact answers_response hchunk hgood hreaction hfresh hmoves
  · intro hresponse actions s hrun hactive
    exact lookup_reaches hrule (sequential_lookupRank hcontents hallowed hresponse) hrun hactive

end Refinement

/-- A directory `/srv/docs` with an index file of three bytes. -/
def docsStore : Store where
  opens path :=
    if path = ⟨"/srv/docs"⟩ then .ok ⟨⟨0, 0, 0, true⟩, [], directory_size⟩
    else if path = ⟨"/srv/docs/index.html"⟩ then
      .ok ⟨⟨3, 0, 0, false⟩, [97, 98, 99], letters_size⟩
    else .error ⟨.notFound, none⟩
  lists _ := .ok []

/-- Open files by the number of their content. -/
def numberedContents (handle : FileHandle) : Bytes :=
  ((Encodable.decode handle.id : Option (List ℕ)).getD []).map UInt8.ofNat

theorem numberedContents_surjective : Function.Surjective numberedContents := by
  intro bytes
  refine ⟨⟨Encodable.encode (bytes.map UInt8.toNat)⟩, ?_⟩
  rw [numberedContents]
  rw [Encodable.encodek, Option.getD_some, List.map_map]
  exact List.map_id'' (fun b => UInt8.ofNat_toNat) bytes

/-- The index file of the directory is served. -/
theorem lookup_refines_sequential_docs :
    ∃ response, response.data = [97, 98, 99] ∧
      Responds Crates.plain (Config.defaults ⟨"/srv"⟩)
        (docsStore.serves numberedContents (getHeaders "/docs/")) (some response) := by
  have hdata : (sequentialResponse Crates.plain (Config.defaults ⟨"/srv"⟩) docsStore
      (getHeaders "/docs/")).map Response.data = some [97, 98, 99] := by decide
  obtain ⟨response, hresponse, hdata⟩ := Option.map_eq_some_iff.mp hdata
  refine ⟨response, hdata, ?_⟩
  rw [← hresponse]
  apply lookup_refines_sequential (by decide) numberedContents_surjective (Or.inl rfl)
  intro data encodings hrequest name hname file hopens
  have hrelative : (acceptedRequest Crates.plain (Config.defaults ⟨"/srv"⟩)
      (getHeaders "/docs/")).map (fun request => request.1.relative) = some "docs" := by
    decide
  rw [hrequest, Option.map_some, Option.some_inj] at hrelative
  have hpath : (requestDir (Config.defaults ⟨"/srv"⟩) data).join name =
      ⟨"/srv/docs/index.html"⟩ := by
    rw [List.mem_singleton.mp hname, requestDir, hrelative]
    decide
  rw [hpath] at hopens
  cases hopens
  rfl

end EnvoyFiles.Filter
