import EnvoyFiles.Filter.EventBridge
import EnvoyFiles.Io.Interface

/-!
# The state of one stream

The data types of `envoy-files-filter/src/filter.rs`, and the state its
callbacks act on: the filter's own cells together with the bridge, the engine
operations it has submitted, the scheduler commits that wait for the worker
thread, and the trace of everything it exchanges with Envoy and the engine.
-/

namespace EnvoyFiles.Filter

/-- What an open carries through to its completion. -/
structure OpenCtx where
  encoding : Option String
  contentType : String
  addVary : Bool
  deriving DecidableEq

inductive IoEvent where
  | opened (handle : FileHandle) (stat : FileStat) (ctx : OpenCtx)
      (prefetched : Bytes)
  | openError (error : IoError)
  | read (seq : ℕ) (result : ReadResult)
  | dir (result : ReadDirResult)

structure Candidate where
  fsPath : PathBuf
  encoding : Option String
  contentType : String
  addVary : Bool
  deriving DecidableEq

/-- One ordered unit of the body: bytes already at hand or a file range still
to be read. -/
inductive Chunk where
  | inline (bytes : Bytes)
  | file (offset len : ℕ)
  deriving DecidableEq

/-- `HashMap<usize, Vec<u8>>`; nothing in the filter depends on its order. -/
abbrev Ready := AList (fun _ : ℕ => Bytes)

structure Streaming where
  handle : FileHandle
  chunks : List Chunk
  ready : Ready
  nextSend : ℕ
  issueCursor : ℕ
  inflight : ℕ
  /-- High and low watermark callbacks nest, so this is a depth. -/
  watermarkDepth : ℕ

inductive Phase where
  | idle
  | resolvingFile (pending : List Candidate)
  | resolvingIndex (dirFs : PathBuf) (pending : List (PathBuf × String))
  | streaming (streaming : Streaming)
  | done

structure RequestData where
  methodHead : Bool
  ifNoneMatch : Option String
  ifModifiedSince : Option String
  ifMatch : Option String
  ifUnmodifiedSince : Option String
  ifRange : Option String
  rangeHeader : Option String
  relative : String
  trailingSlash : Bool

/-! ## The filter's surroundings -/

/-- A submitted engine operation with what its callback has captured. -/
inductive Op where
  | openStat (request : OpenRequest) (ctx : OpenCtx)
  | read (handle : FileHandle) (offset len seq : ℕ)
  | readDir (path : PathBuf)
  deriving DecidableEq

/-- The result an engine operation completes with. -/
inductive Completion where
  | openStat (result : OpenResult)
  | read (result : ReadResult)
  | readDir (result : ReadDirResult)

/-- The event an operation's callback builds from its result. -/
def Op.onDone : Op → Completion → Option IoEvent
  | .openStat _ ctx, .openStat (.ok (handle, stat, prefetched)) =>
      some (.opened handle stat ctx prefetched)
  | .openStat _ _, .openStat (.error error) => some (.openError error)
  | .read _ _ _ seq, .read result => some (.read seq result)
  | .readDir _, .readDir result => some (.dir result)
  | _, _ => none

/-- The downstream watermark callbacks. -/
inductive Hook where
  | above
  | below
  deriving DecidableEq, Repr

/-- The function a body send comes from. -/
inductive Caller where
  | pump
  | handleRead
  deriving DecidableEq, Repr

/-- One exchange of the filter with Envoy or the engine. -/
inductive Call where
  | sendResponse (status : ℕ) (headers : List (String × String))
      (body : Option Bytes)
  | sendResponseHeaders (headers : List (String × String)) (endStream : Bool)
  | sendResponseData (caller : Caller) (data : Bytes) (endStream : Bool)
  | openStat (request : OpenRequest)
  | read (handle : FileHandle) (offset len seq : ℕ)
  | readDir (path : PathBuf)
  | hook (hook : Hook)
  deriving DecidableEq

/-- One stream: the cells of `Filter` (`phase`, `request`, `waker`, `bridge`)
and what surrounds them. -/
structure State where
  phase : Phase
  request : Option RequestData
  /-- Whether the waker cell has been set. -/
  waker : Bool
  bridge : EventBridge.Inner IoEvent
  /-- The rest of `on_scheduled`'s drained `events`; empty between
  callbacks. -/
  batch : List IoEvent
  /-- Operations the engine has not completed. -/
  pending : List Op
  /-- Engine threads between their successful send and their commit. -/
  delivering : ℕ
  /-- Commits for which `on_scheduled` has not run yet. -/
  commits : ℕ
  trace : List Call
  /-- The watermark hooks Envoy fires from inside the next sends of this
  callback, one list for each send. -/
  reentry : List (List Hook)
  /-- Whether `on_stream_complete` has run. -/
  complete : Bool

/-- `Filter::new`, on a fresh stream. -/
def State.initial : State where
  phase := .idle
  request := none
  waker := false
  bridge := .empty
  batch := []
  pending := []
  delivering := 0
  commits := 0
  trace := []
  reentry := []
  complete := false

/-- `set_phase`. -/
def State.setPhase (s : State) (phase : Phase) : State :=
  { s with phase }

end EnvoyFiles.Filter
