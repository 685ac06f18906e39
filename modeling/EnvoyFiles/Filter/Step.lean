import EnvoyFiles.Filter.Callbacks
import EnvoyFiles.Support.Transition

/-!
# Runs of one stream

The actions that reach a stream: Envoy's callbacks on the worker thread and,
on the engine's threads, the completion of an operation and the commit behind
it.  A callback touches the bridge only where it drains it, so an engine action
that happens during a callback can be placed before or after it, and callbacks
are single steps.
-/

namespace EnvoyFiles.Filter

inductive Action where
  /-- `on_request_headers`, with the hooks its sends fire. -/
  | requestHeaders (headers : List (Bytes × Bytes)) (reentry : List (List Hook))
  /-- The operation at `index` completes: its callback sends the event. -/
  | complete (index : ℕ) (completion : Completion)
  /-- An engine thread whose send succeeded commits the scheduler. -/
  | commit
  /-- `on_scheduled`, with the hooks its sends fire; it may also run without a
  commit. -/
  | scheduled (reentry : List (List Hook))
  /-- A watermark callback at the top level. -/
  | hook (hook : Hook)
  /-- `on_stream_complete`. -/
  | streamComplete

/-- `Waker::deliver` up to its commit: a failed send drops the event. -/
def deliver (s : State) (event : IoEvent) : State :=
  match EventBridge.send s.bridge event with
  | (bridge, .ok ()) => { s with bridge, delivering := s.delivering + 1 }
  | (bridge, .error _) => { s with bridge }

/-- The completion of the operation at `index`. -/
def completeOp (s : State) (index : ℕ) (completion : Completion) :
    Option State := do
  let op ← s.pending[index]?
  let event ← op.onDone completion
  return deliver { s with pending := s.pending.eraseIdx index } event

/-- One action.  `none` means that the action cannot happen: request headers
come once, no callback runs after `on_stream_complete`, and a callback that
panics has no next state. -/
def step (crates : Crates) (cfg : Config) (s : State) : Action → Option State
  | .requestHeaders headers reentry =>
      match s.phase, s.complete with
      | .idle, false => onRequestHeaders crates cfg { s with reentry } headers
      | _, _ => none
  | .complete index completion => completeOp s index completion
  | .commit =>
      if s.delivering = 0 then none
      else some { s with
        delivering := s.delivering - 1
        commits := s.commits + 1 }
  | .scheduled reentry =>
      if s.complete then none
      else onScheduled crates cfg { s with reentry, commits := s.commits - 1 }
  | .hook hook => if s.complete then none else some (s.onHook hook)
  | .streamComplete => if s.complete then none else some (onStreamComplete s)

/-- How the engine may complete an operation, given the state it completes
in. -/
abbrev EngineContract := State → Op → Completion → Prop

/-- An environment: the request headers it sends and what its engine
returns. -/
structure Env where
  requests : List (Bytes × Bytes) → Prop
  completes : EngineContract

/-- The actions an environment allows in a state. -/
def Env.allows (env : Env) (s : State) : Action → Prop
  | .requestHeaders headers _ => env.requests headers
  | .complete index completion =>
      ∀ op, s.pending[index]? = some op → env.completes s op completion
  | _ => True

/-- The environment that may send any request and complete any operation with
any result. -/
def Env.any : Env where
  requests _ := True
  completes _ _ _ := True

/-- A run of a stream in an environment. -/
abbrev StreamRun (crates : Crates) (cfg : Config) (env : Env) :
    State → List Action → State → Prop :=
  Transition.Run (step crates cfg) env.allows

theorem any_allows (s : State) (action : Action) : Env.any.allows s action := by
  cases action <;> simp [Env.allows, Env.any]

/-- The actions performed one after another. -/
def replay (crates : Crates) (cfg : Config) (s : State) (actions : List Action) :
    Option State :=
  actions.foldlM (step crates cfg) s

/-- The headers of a plain `GET`. -/
def getHeaders (path : String) : List (Bytes × Bytes) :=
  [(Text.asBytes ":method", Text.asBytes "GET"),
    (Text.asBytes ":path", Text.asBytes path)]

end EnvoyFiles.Filter
