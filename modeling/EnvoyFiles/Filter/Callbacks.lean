import EnvoyFiles.Core.Listing
import EnvoyFiles.Core.ResponsePlan
import EnvoyFiles.Filter.Request

/-!
# The filter's callbacks

The model of the methods of `Filter` in `envoy-files-filter/src/filter.rs`,
each as a function of the stream's state.  A handler's Boolean is the source's:
whether the event ended the stream.  A handler returns `none` where the source
panics: a missing cell behind an `expect`, a header value or a date that cannot
be built.

No borrow of the phase is held across a send, because Envoy may fire a
watermark hook from inside it.  `State.send` therefore performs the send and
then runs the hooks that the environment has scheduled for it.
-/

namespace EnvoyFiles.Filter

open Range Conditional

/-! ## Watermark hooks and sends -/

/-- `on_downstream_above_write_buffer_high_watermark`. -/
def onAboveHighWatermark (s : State) : State :=
  match s.phase with
  | .streaming streaming =>
      s.setPhase (.streaming
        { streaming with watermarkDepth := streaming.watermarkDepth + 1 })
  | _ => s

/-- `on_downstream_below_write_buffer_low_watermark`. -/
def onBelowLowWatermark (s : State) : State :=
  match s.phase with
  | .streaming streaming =>
      -- Truncated subtraction is the source's `saturating_sub`.
      let depth := streaming.watermarkDepth - 1
      let s' := s.setPhase (.streaming { streaming with watermarkDepth := depth })
      if depth = 0 ∧ s.waker then { s' with commits := s'.commits + 1 } else s'
  | _ => s

/-- Appends one exchange to the trace. -/
def State.record (s : State) (call : Call) : State :=
  { s with trace := s.trace ++ [call] }

/-- One watermark callback. -/
def State.onHook (s : State) (hook : Hook) : State :=
  match hook with
  | .above => onAboveHighWatermark (s.record (.hook .above))
  | .below => onBelowLowWatermark (s.record (.hook .below))

/-- A send to Envoy, with the hooks it fires before it returns. -/
def State.send (s : State) (call : Call) : State :=
  let hooks := s.reentry.headD []
  let s' := { s.record call with reentry := s.reentry.tail }
  hooks.foldl State.onHook s'

/-- `respond_status`. -/
def respondStatus (s : State) (status : ℕ) : State × Bool :=
  ((s.setPhase .done).send (.sendResponse status [] none), true)

/-! ## Opening candidates -/

/-- The prefetch length of an open: one chunk for a plain whole-file `GET`. -/
def prefetchLen (cfg : Config) (request : Option RequestData) : ℕ :=
  match request with
  | some req =>
      if !req.methodHead && req.rangeHeader.isNone then cfg.chunkSize else 0
  | none => 0

/-- The request `submit_open` hands to the engine. -/
def openRequest (cfg : Config) (request : Option RequestData)
    (fsPath : PathBuf) : OpenRequest where
  path := fsPath
  containmentRoot := some cfg.root
  denySymlinks := !cfg.followSymlinksWithinRoot
  prefetchLen := prefetchLen cfg request

/-- Hands an operation to the engine. -/
def State.submit (s : State) (op : Op) (call : Call) : State :=
  { s.record call with pending := s.pending ++ [op] }

/-- `submit_open`. -/
def submitOpen (cfg : Config) (s : State) (fsPath : PathBuf) (ctx : OpenCtx) :
    Option State :=
  if s.waker then
    let request := openRequest cfg s.request fsPath
    some (s.submit (.openStat request ctx) (.openStat request))
  else
    none

/-- `open_next_candidate`. -/
def openNextCandidate (cfg : Config) (s : State) : Option (State × Bool) :=
  match s.phase with
  | .resolvingFile [] => some (respondStatus s 404)
  | .resolvingFile (candidate :: rest) => do
      let s' ← submitOpen cfg (s.setPhase (.resolvingFile rest)) candidate.fsPath
        ⟨candidate.encoding, candidate.contentType, candidate.addVary⟩
      return (s', false)
  | _ => some (s, false)

/-- `directory_fallback`. -/
def directoryFallback (cfg : Config) (s : State) (dirFs : PathBuf) :
    Option (State × Bool) :=
  match cfg.directory with
  | .listing =>
      if s.waker then
        some (s.submit (.readDir dirFs) (.readDir dirFs), false)
      else
        none
  | .index | .deny => some (respondStatus s 404)

/-- `open_next_index`. -/
def openNextIndex (cfg : Config) (s : State) : Option (State × Bool) :=
  match s.phase with
  | .resolvingIndex dirFs ((fsPath, contentType) :: rest) => do
      let s' ← submitOpen cfg (s.setPhase (.resolvingIndex dirFs rest)) fsPath
        ⟨none, contentType, false⟩
      return (s', false)
  | .resolvingIndex dirFs [] => directoryFallback cfg s dirFs
  | _ => some (s, false)

/-- The resolver in progress. -/
inductive Resolver where
  | file (exhausted : Bool)
  | index
  deriving DecidableEq

/-- `resolver`. -/
def resolver (s : State) : Option Resolver :=
  match s.phase with
  | .resolvingFile pending => some (.file pending.isEmpty)
  | .resolvingIndex _ _ => some .index
  | _ => none

/-- `handle_open_error`. -/
def handleOpenError (cfg : Config) (s : State) (error : IoError) :
    Option (State × Bool) :=
  match resolver s with
  | some (.file false) => openNextCandidate cfg s
  | some (.file true) =>
      some (respondStatus s (statusForIoError error.kind error.rawOsError))
  | some .index => openNextIndex cfg s
  | none => some (s, false)

/-- `advance_after_open_miss`. -/
def advanceAfterOpenMiss (cfg : Config) (s : State) : Option (State × Bool) :=
  match resolver s with
  | some (.file _) => openNextCandidate cfg s
  | some .index => openNextIndex cfg s
  | none => some (s, false)

/-- `handle_directory`. -/
def handleDirectory (crates : Crates) (cfg : Config) (s : State) :
    Option (State × Bool) :=
  match s.request with
  | none => none
  | some request =>
      if !request.trailingSlash && cfg.redirectTrailingSlash then
        let location := urlFor cfg request.relative ++ "/"
        some ((s.setPhase .done).send
          (.sendResponse 301 [("location", location)] none), true)
      else if cfg.directory = .deny then
        some (respondStatus s 403)
      else
        let dirFs := cfg.root.join request.relative
        let pending := indexCandidates crates cfg dirFs
        if pending.isEmpty then
          directoryFallback cfg s dirFs
        else
          openNextIndex cfg (s.setPhase (.resolvingIndex dirFs pending))

/-! ## Serving a file -/

/-- The loop of `file_chunks` from `offset` to `stop`; `fuel` bounds its
rounds. -/
def fileChunksLoop (chunkSize : ℕ) : ℕ → ℕ → ℕ → List Chunk
  | 0, _, _ => []
  | fuel + 1, offset, stop =>
      if offset < stop then
        let this := min (stop - offset) chunkSize
        .file offset this :: fileChunksLoop chunkSize fuel (offset + this) stop
      else
        []

/-- `file_chunks`.  Every round advances by at least one byte, so `len` rounds
are enough. -/
def fileChunks (cfg : Config) (start len : ℕ) : List Chunk :=
  fileChunksLoop cfg.chunkSize len start (start + len)

/-- The chunk list `execute_plan` builds from a body. -/
def bodyChunks (cfg : Config) : BodyPlan → List Chunk
  | .empty => []
  | .whole len => fileChunks cfg 0 len
  | .segments ranges =>
      ranges.flatMap fun range => fileChunks cfg range.start range.length
  | .multipart parts terminator _ =>
      parts.flatMap (fun part =>
        .inline part.header :: fileChunks cfg part.range.start part.range.length) ++
        [.inline terminator]

/-- The inline chunks, which are ready from the start. -/
def inlineReady : ℕ → List Chunk → Ready
  | _, [] => ∅
  | seq, .inline bytes :: rest => (inlineReady (seq + 1) rest).insert seq bytes
  | seq, .file _ _ :: rest => inlineReady (seq + 1) rest

/-- Seeds chunk 0 from a prefetch that exactly covers it. -/
def seedPrefetch (chunks : List Chunk) (prefetched : Bytes) (ready : Ready) :
    Ready :=
  match chunks with
  | .file 0 len :: _ =>
      if prefetched.length = len then ready.insert 0 prefetched else ready
  | _ => ready

/-- The `Streaming` phase as `begin_streaming` enters it. -/
def initialStreaming (handle : FileHandle) (chunks : List Chunk)
    (prefetched : Bytes) : Streaming where
  handle
  chunks
  ready := seedPrefetch chunks prefetched (inlineReady 0 chunks)
  nextSend := 0
  issueCursor := 0
  inflight := 0
  watermarkDepth := 0

/-- `begin_streaming`. -/
def beginStreaming (s : State) (headers : List (String × String))
    (handle : FileHandle) (chunks : List Chunk) (prefetched : Bytes) :
    State × Bool :=
  if chunks.isEmpty then
    ((s.setPhase .done).send (.sendResponseHeaders headers true), true)
  else
    ((s.setPhase (.streaming (initialStreaming handle chunks prefetched))).send
      (.sendResponseHeaders headers false), false)

/-- The header list `execute_plan` sends. -/
def responseHeaders (plan : ResponsePlan) : List (String × String) :=
  (":status", toString plan.status) :: plan.headers

/-- The prefetch `execute_plan` keeps: only a whole-file body starts at offset
0, where the prefetch lies. -/
def usablePrefetch (body : BodyPlan) (prefetched : Bytes) : Bytes :=
  match body with
  | .whole _ => prefetched
  | _ => []

/-- `execute_plan`. -/
def executePlan (cfg : Config) (s : State) (plan : ResponsePlan)
    (handle : FileHandle) (prefetched : Bytes) : State × Bool :=
  match plan.body with
  | .empty =>
      ((s.setPhase .done).send (.sendResponseHeaders (responseHeaders plan) true),
        true)
  | body =>
      beginStreaming s (responseHeaders plan) handle (bodyChunks cfg body)
        (usablePrefetch body prefetched)

/-- The facts `serve_file` plans from. -/
def requestFacts (cfg : Config) (request : RequestData) (stat : FileStat)
    (ctx : OpenCtx) : RequestFacts where
  methodHead := request.methodHead
  conditionals :=
    { ifNoneMatch := request.ifNoneMatch
      ifModifiedSince := request.ifModifiedSince
      ifMatch := request.ifMatch
      ifUnmodifiedSince := request.ifUnmodifiedSince
      ifRange := request.ifRange }
  rangeHeader := if cfg.ranges = .none then none else request.rangeHeader
  contentType := ctx.contentType
  etagEnabled := cfg.etag
  lastModifiedEnabled := cfg.lastModified
  rangePolicy := { allowMulti := cfg.ranges = .multi, maxParts := 50 }
  boundary := "envoyfilesboundary" ++ Text.hex16 stat.size ++
    Text.hex16 (Text.asU64 stat.mtimeUnix)
  contentEncoding := ctx.encoding
  addVary := ctx.addVary
  cacheControl := cfg.cacheControl

/-- The metadata `serve_file` plans from. -/
def fileMeta (stat : FileStat) : FileMeta where
  size := stat.size
  mtimeUnix := stat.mtimeUnix
  mtimeNanos := stat.mtimeNanos
  isDir := false

/-- `serve_file`. -/
def serveFile (crates : Crates) (cfg : Config) (s : State) (handle : FileHandle)
    (stat : FileStat) (ctx : OpenCtx) (prefetched : Bytes) :
    Option (State × Bool) := do
  let request ← s.request
  let plan ← planResponse crates (requestFacts cfg request stat ctx) (fileMeta stat)
  return executePlan cfg s plan handle prefetched

/-- `handle_opened`. -/
def handleOpened (crates : Crates) (cfg : Config) (s : State) (handle : FileHandle)
    (stat : FileStat) (ctx : OpenCtx) (prefetched : Bytes) :
    Option (State × Bool) :=
  if stat.isDir then
    if ctx.encoding.isSome then
      advanceAfterOpenMiss cfg s
    else
      handleDirectory crates cfg s
  else
    serveFile crates cfg s handle stat ctx prefetched

/-! ## Directory listings and reads -/

/-- `handle_dir`. -/
def handleDir (crates : Crates) (cfg : Config) (s : State)
    (result : ReadDirResult) : Option (State × Bool) :=
  match result with
  | .error error =>
      some (respondStatus s (statusForIoError error.kind error.rawOsError))
  | .ok entries => do
      let request ← s.request
      let urlPath := urlFor cfg request.relative
      let atRoot := request.relative.isEmpty
      let dirEntries := entries.map fun e =>
        (⟨e.name, e.isDir, e.size, e.mtimeUnix⟩ : Listing.DirEntry)
      let html ← Listing.renderListing crates urlPath atRoot dirEntries
      return ((s.setPhase .done).send
        (.sendResponse 200 [("content-type", "text/html; charset=utf-8")]
          (some (Text.asBytes html))), true)

/-- `handle_read`. -/
def handleRead (s : State) (seq : ℕ) (result : ReadResult) : State × Bool :=
  match s.phase with
  | .streaming streaming =>
      match result with
      | .ok data =>
          (s.setPhase (.streaming
            { streaming with
              -- Truncated subtraction is the source's `saturating_sub`.
              inflight := streaming.inflight - 1
              ready := streaming.ready.insert seq data }), false)
      | .error _ =>
          ((s.setPhase .done).send (.sendResponseData .handleRead [] true), true)
  | _ => (s, false)

/-- `handle_event`. -/
def handleEvent (crates : Crates) (cfg : Config) (s : State) (event : IoEvent) :
    Option (State × Bool) :=
  match event with
  | .opened handle stat ctx prefetched =>
      handleOpened crates cfg s handle stat ctx prefetched
  | .openError error => handleOpenError cfg s error
  | .read seq result => some (handleRead s seq result)
  | .dir result => handleDir crates cfg s result

/-! ## The pump -/

/-- The flush loop of `pump`.  The Boolean says whether `pump` goes on to issue
reads; `fuel` bounds the rounds, each of which takes an entry out of
`ready`. -/
def flush : ℕ → State → State × Bool
  | 0, s => (s, true)
  | fuel + 1, s =>
      match s.phase with
      | .streaming streaming =>
          if streaming.watermarkDepth = 0 then
            match streaming.ready.lookup streaming.nextSend with
            | some bytes =>
                let s' := s.setPhase (.streaming
                  { streaming with
                    ready := streaming.ready.erase streaming.nextSend
                    nextSend := streaming.nextSend + 1 })
                if streaming.nextSend = streaming.chunks.length - 1 then
                  ((s'.setPhase .done).send (.sendResponseData .pump bytes true),
                    false)
                else
                  flush fuel (s'.send (.sendResponseData .pump bytes false))
            | none => (s, true)
          else
            (s, false)
      | _ => (s, false)

/-- Rounds that are enough for the flush loop. -/
def flushFuel (s : State) : ℕ :=
  match s.phase with
  | .streaming streaming => streaming.ready.entries.length + 1
  | _ => 1

/-- One read request of the issue loop: `(index, offset, len)`. -/
abbrev ReadRequest := ℕ × ℕ × ℕ

/-- The issue loop of `pump` over the chunks from `issue_cursor` on: the new
cursor, the new in-flight count and the requests. -/
def issueLoop (maxInflight : ℕ) (ready : Ready) :
    List Chunk → ℕ → ℕ → ℕ × ℕ × List ReadRequest
  | [], cursor, inflight => (cursor, inflight, [])
  | chunk :: rest, cursor, inflight =>
      if inflight < maxInflight then
        if cursor ∈ ready then
          issueLoop maxInflight ready rest (cursor + 1) inflight
        else
          match chunk with
          | .inline _ => issueLoop maxInflight ready rest (cursor + 1) inflight
          | .file offset len =>
              let (cursor', inflight', requests) :=
                issueLoop maxInflight ready rest (cursor + 1) (inflight + 1)
              (cursor', inflight', (cursor, offset, len) :: requests)
      else
        (cursor, inflight, [])

/-- Submits the requests of one issue loop. -/
def submitReads (handle : FileHandle) (requests : List ReadRequest) (s : State) :
    State :=
  requests.foldl (fun s (index, offset, len) =>
    s.submit (.read handle offset len index) (.read handle offset len index)) s

/-- The second half of `pump`: issuing reads up to the in-flight window. -/
def issueReads (cfg : Config) (s : State) : Option State :=
  if s.waker then
    match s.phase with
    | .streaming streaming =>
        let (issueCursor, inflight, requests) :=
          issueLoop cfg.maxInflightReads streaming.ready
            (streaming.chunks.drop streaming.issueCursor)
            streaming.issueCursor streaming.inflight
        some (submitReads streaming.handle requests
          (s.setPhase (.streaming { streaming with issueCursor, inflight })))
    | _ => some s
  else
    none

/-- `pump`. -/
def pump (cfg : Config) (s : State) : Option State :=
  match flush (flushFuel s) s with
  | (s', true) => issueReads cfg s'
  | (s', false) => some s'

/-! ## The entry points -/

/-- The event loop of `on_scheduled`, which stops at the event that ends the
stream. -/
def handleBatch (crates : Crates) (cfg : Config) :
    List IoEvent → State → Option (State × Bool)
  | [], s => some (s, false)
  | event :: rest, s => do
      let (s', ended) ← handleEvent crates cfg { s with batch := rest } event
      if ended then
        return ({ s' with batch := [] }, true)
      else
        handleBatch crates cfg rest s'

/-- `on_scheduled`. -/
def onScheduled (crates : Crates) (cfg : Config) (s : State) : Option State :=
  let (bridge, events) := EventBridge.process s.bridge
  match handleBatch crates cfg events { s with bridge, batch := events } with
  | none => none
  | some (s', true) => some s'
  | some (s', false) =>
      match s'.phase with
      | .streaming _ => pump cfg s'
      | _ => some s'

/-- The request data kept for the response. -/
def requestData (raw : RawRequestHeaders) (relative : String)
    (trailingSlash : Bool) : RequestData where
  methodHead := raw.method = some (Text.asBytes "HEAD")
  ifNoneMatch := raw.ifNoneMatch
  ifModifiedSince := raw.ifModifiedSince
  ifMatch := raw.ifMatch
  ifUnmodifiedSince := raw.ifUnmodifiedSince
  ifRange := raw.ifRange
  rangeHeader := raw.range
  relative
  trailingSlash

/-- The accepted end of `on_request_headers`: the request and the waker are
kept and the first candidate is opened. -/
def startResolving (crates : Crates) (cfg : Config) (s : State)
    (raw : RawRequestHeaders) (relative : String) (trailingSlash : Bool) :
    Option State :=
  let pending :=
    buildFileCandidates crates cfg relative trailingSlash raw.acceptEncoding
  let s' :=
    { s with
      request := some (requestData raw relative trailingSlash)
      waker := true
      phase := .resolvingFile pending }
  (openNextCandidate cfg s').map (·.1)

/-- `on_request_headers`. -/
def onRequestHeaders (crates : Crates) (cfg : Config) (s : State)
    (headers : List (Bytes × Bytes)) : Option State :=
  let raw := RawRequestHeaders.collect headers
  if raw.method ≠ some (Text.asBytes "HEAD") ∧
      raw.method ≠ some (Text.asBytes "GET") then
    some ((s.setPhase .done).send
      (.sendResponse 405 [("allow", "GET, HEAD")] none))
  else
    match mountedPath cfg (raw.path.getD "") with
    | none => some (respondStatus s 404).1
    | some rawPath =>
        match Path.resolveRequestPath rawPath (pathPolicy cfg) with
        | .reject reason => some (respondStatus s (rejectStatus reason)).1
        | .ok relative trailingSlash =>
            startResolving crates cfg s raw relative trailingSlash

/-- `on_stream_complete`. -/
def onStreamComplete (s : State) : State :=
  { s with bridge := EventBridge.close s.bridge, complete := true }

end EnvoyFiles.Filter
