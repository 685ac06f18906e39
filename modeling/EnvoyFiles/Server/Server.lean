import EnvoyFiles.Filter.HeldHandles
import EnvoyFiles.Filter.InertHandles
import EnvoyFiles.Io.Jobs

/-!
# One engine and its streams

The model of `FilterConfig` in `envoy-files-filter/src/lib.rs` at work: the streams that
`new_http_filter` has created share one engine.  A callback of a filter is one step up to
what it submits; its commands are sent one by one, with those of other streams and the
turns of the runtime thread between them.  The filter keeps no clone of a handle beyond a
callback, so a handle has one holder.
-/

namespace EnvoyFiles

open Filter

namespace Server

/-- What a callback of the engine has captured: the waker of a stream, and what the event is
built from. -/
structure OnDone where
  stream : ℕ
  op : Op
  deriving DecidableEq

/-- A stream, with the submissions that its running callback has still to make. -/
structure Stream where
  filter : State
  submits : List Op
  /-- Whether the filter has not been dropped. -/
  alive : Bool

/-- The handles that keep a file open. -/
def Stream.held (stream : Stream) : List FileHandle :=
  if stream.alive then stream.filter.held else []

end Server

/-- `FilterConfig` and the streams it has created, each under its number. -/
structure Server where
  reactor : Reactor Server.OnDone
  streams : List Server.Stream

namespace Server

def initial : Server := ⟨.initial, []⟩

/-- `new_http_filter`. -/
def newStream (s : Server) : Server :=
  { s with streams := s.streams ++ [⟨State.initial, [], true⟩] }

/-- Whether a handle belongs to another stream or is held. -/
def holds (index : ℕ) (held : List FileHandle) (entry : HandleInner × OnDone) : Bool :=
  entry.2.stream ≠ index || held.contains ⟨entry.1.id⟩

/-- A stream changes, and the handles it no longer holds are dropped. -/
def setStream (s : Server) (index : ℕ) (stream : Stream) : Server where
  reactor := s.reactor.release (holds index stream.held)
  streams := s.streams.set index stream

/-! ## The worker threads -/

/-- A callback of a filter; what it adds to the pending operations is left to be sent. -/
def callback (crates : Crates) (cfg : Config) (s : Server) (index : ℕ) (action : Filter.Action) :
    Option Server := do
  let stream ← s.streams[index]?
  if action.isCallback && stream.submits.isEmpty then
    let filter ← Filter.step crates cfg stream.filter action
    return s.setStream index { stream with
      filter
      submits := filter.pending.drop stream.filter.pending.length }
  else
    none

/-- The first half of an `open_stat` that a callback makes. -/
def claimId (s : Server) (index : ℕ) : Option Server := do
  let stream ← s.streams[index]?
  match stream.submits with
  | .openStat request ctx :: submits =>
      some
        { reactor := s.reactor.claimId request ⟨index, .openStat request ctx⟩
          streams := s.streams.set index { stream with submits } }
  | _ => none

/-- The handle of a stream with this id. -/
def ownHandle (index : ℕ) (handle : FileHandle) (entry : HandleInner × OnDone) : Bool :=
  entry.2.stream = index && entry.1.id = handle.id

/-- A `read` or `read_dir` that a callback makes. -/
def submit (s : Server) (index : ℕ) : Option Server := do
  let stream ← s.streams[index]?
  match stream.submits with
  | .read handle offset len seq :: submits => do
      let position ← s.reactor.handles.findIdx? (ownHandle index handle)
      let reactor ← s.reactor.read position offset len ⟨index, .read handle offset len seq⟩
      return { reactor, streams := s.streams.set index { stream with submits } }
  | .readDir path :: submits =>
      some
        { reactor := s.reactor.readDir path ⟨index, .readDir path⟩
          streams := s.streams.set index { stream with submits } }
  | _ => none

/-- The second half of an `open_stat`. -/
def sendOpen (s : Server) (index : ℕ) : Option Server := do
  let reactor ← s.reactor.submitOpen index
  return { s with reactor }

/-- A filter is dropped, once its stream is complete. -/
def destroy (s : Server) (index : ℕ) : Option Server := do
  let stream ← s.streams[index]?
  if stream.filter.complete && stream.submits.isEmpty then
    return s.setStream index { stream with alive := false }
  else
    none

/-- `HandleInner::drop`. -/
def dropInner (s : Server) (index : ℕ) : Option Server := do
  let reactor ← s.reactor.dropInner index
  return { s with reactor }

/-! ## The runtime thread -/

def takeCommand (s : Server) : Option Server := do
  let reactor ← s.reactor.takeCommand
  return { s with reactor }

/-- A callback of the engine: it builds the event and delivers it to its stream. -/
def runCallback (s : Server) (onDone : OnDone) (completion : Completion) : Option Server := do
  let stream ← s.streams[onDone.stream]?
  let event ← onDone.op.onDone completion
  let pending := stream.filter.pending.erase onDone.op
  return s.setStream onDone.stream
    { stream with filter := deliver { stream.filter with pending } event }

def finishOpen (s : Server) (index : ℕ) (os : Os) (descriptor : ℕ) : Option Server := do
  let (reactor, onDone, result) ← s.reactor.finishOpen index os descriptor
  runCallback { s with reactor } onDone (.openStat (openResult result))

def finishRead (s : Server) (index : ℕ) (reply : ℕ → ℕ → ℕ → Except IoError Bytes) :
    Option Server := do
  let (reactor, onDone, result) ← s.reactor.finishRead index reply
  runCallback { s with reactor } onDone (.read result)

def finishReadDir (s : Server) (index : ℕ) (result : ReadDirResult) : Option Server := do
  let (reactor, onDone, result) ← s.reactor.finishReadDir index result
  runCallback { s with reactor } onDone (.readDir result)

/-! ## Interleavings -/

inductive Action where
  | newStream
  | callback (stream : ℕ) (action : Filter.Action)
  | claimId (stream : ℕ)
  | submit (stream : ℕ)
  | sendOpen (index : ℕ)
  | destroy (stream : ℕ)
  | dropInner (index : ℕ)
  /-- `FilterConfig` is dropped. -/
  | shutdown
  | takeCommand
  | finishOpen (index : ℕ) (os : Os) (descriptor : ℕ)
  | finishRead (index : ℕ) (reply : ℕ → ℕ → ℕ → Except IoError Bytes)
  | finishReadDir (index : ℕ) (result : ReadDirResult)

/-- A task of the runtime thread ends. -/
def Action.finishes : Action → Bool
  | .finishOpen _ _ _ => true
  | .finishRead _ _ => true
  | .finishReadDir _ _ => true
  | _ => false

def step (crates : Crates) (cfg : Config) (s : Server) : Action → Option Server
  | .newStream => some s.newStream
  | .callback stream action => s.callback crates cfg stream action
  | .claimId stream => s.claimId stream
  | .submit stream => s.submit stream
  | .sendOpen index => s.sendOpen index
  | .destroy stream => s.destroy stream
  | .dropInner index => s.dropInner index
  | .shutdown => some { s with reactor := s.reactor.shutdown }
  | .takeCommand => s.takeCommand
  | .finishOpen index os descriptor => s.finishOpen index os descriptor
  | .finishRead index reply => s.finishRead index reply
  | .finishReadDir index result => s.finishReadDir index result

/-- An interleaving of the threads, with what the filesystem may answer given by `ok`. -/
abbrev ServerRun (crates : Crates) (cfg : Config) (ok : Server → Action → Prop) :
    Server → List Action → Server → Prop :=
  Transition.Run (step crates cfg) ok

/-- The calls of `open_stat` among some actions. -/
def opens : List Action → ℕ
  | [] => 0
  | .claimId _ :: actions => opens actions + 1
  | _ :: actions => opens actions

end Server

end EnvoyFiles
