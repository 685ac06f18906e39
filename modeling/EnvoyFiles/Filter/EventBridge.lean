import Mathlib

/-!
# The event bridge

The model of `envoy-files-filter/src/eventbridge.rs`: the mailbox between the
engine's threads and the worker thread.  Its operations run under one lock, so
each is one function of the state behind it.
-/

namespace EnvoyFiles.EventBridge

/-- The state behind the bridge's lock. -/
inductive Inner (T : Type*) where
  | closed
  | empty
  | single (event : T)
  | multiple (events : List T)

variable {T : Type*}

/-- `EventBridge::send`: the new state, and the event itself when the bridge
is closed. -/
def send (inner : Inner T) (event : T) : Inner T × Except T Unit :=
  match inner with
  | .closed => (.closed, .error event)
  | .empty => (.single event, .ok ())
  | .single first => (.multiple [first, event], .ok ())
  | .multiple events => (.multiple (events ++ [event]), .ok ())

/-- `EventBridge::process`: the new state and the events given to the
callback, in order. -/
def process (inner : Inner T) : Inner T × List T :=
  match inner with
  | .closed => (.empty, [])
  | .empty => (.empty, [])
  | .single event => (.empty, [event])
  | .multiple events => (.empty, events)

/-- `EventBridge::close`. -/
def close (_ : Inner T) : Inner T :=
  .closed

/-- The events waiting in the bridge. -/
def Inner.events : Inner T → List T
  | .closed => []
  | .empty => []
  | .single event => [event]
  | .multiple events => events

@[simp] theorem events_closed : (Inner.closed : Inner T).events = [] := rfl

@[simp] theorem events_empty : (Inner.empty : Inner T).events = [] := rfl

@[simp] theorem process_fst (inner : Inner T) : (process inner).1 = .empty := by
  cases inner <;> rfl

@[simp] theorem process_snd (inner : Inner T) :
    (process inner).2 = inner.events := by
  cases inner <;> rfl

/-- A send either queues the event last or hands it back, and then nothing
was waiting. -/
theorem send_cases (inner : Inner T) (event : T) :
    ((send inner event).2 = .ok () ∧
        (send inner event).1.events = inner.events ++ [event]) ∨
      (send inner event = (.closed, .error event) ∧ inner = .closed) := by
  cases inner with
  | closed => exact Or.inr ⟨rfl, rfl⟩
  | empty => exact Or.inl ⟨rfl, rfl⟩
  | single first => exact Or.inl ⟨rfl, rfl⟩
  | multiple events => exact Or.inl ⟨rfl, rfl⟩

end EnvoyFiles.EventBridge
