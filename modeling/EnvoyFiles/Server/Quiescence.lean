import EnvoyFiles.Filter.Progress
import EnvoyFiles.Filter.Submissions
import EnvoyFiles.Io.Work
import EnvoyFiles.Server.Accounts
import EnvoyFiles.Support.Potential

/-!
# A server comes to rest

The engine does for a callback what the callback submits, and no more: the turns of its
threads are bounded by what was submitted.  It does all of it: where no turn is left, no
stream waits for the engine, no stream stalls, and the open files are those that streams
hold.
-/

namespace EnvoyFiles

open Filter

namespace Server

/-! ## What a step does to a stream -/

section Steps

variable {crates : Crates} {cfg : Config} {n : ℕ} {s t : Server} {action : Action} {index : ℕ}
  {stream stream' : Stream}

/-- A step of one stream. -/
inductive StreamStep (crates : Crates) (cfg : Config) (stream : Stream) : Stream → Prop where
  | callback {action : Filter.Action} {filter : State} :
      action.isCallback = true → Filter.step crates cfg stream.filter action = some filter →
      StreamStep crates cfg stream { stream with
        filter, submits := filter.pending.drop stream.filter.pending.length }
  | hand {op : Op} {submits : List Op} :
      stream.submits = op :: submits → StreamStep crates cfg stream { stream with submits }
  | destroy : stream.submits = [] → StreamStep crates cfg stream { stream with alive := false }
  | complete {op : Op} {event : IoEvent} :
      StreamStep crates cfg stream { stream with
        filter := deliver { stream.filter with pending := stream.filter.pending.erase op } event }

theorem runCallback_streams {reactor : Reactor OnDone} {onDone : OnDone}
    {completion : Completion} (h : runCallback { s with reactor } onDone completion = some t) :
    ∃ index stream stream', s.streams[index]? = some stream ∧
      StreamStep crates cfg stream stream' ∧ t.streams = s.streams.set index stream' := by
  obtain ⟨stream, event, hstream, -, rfl⟩ := runCallback_cases h
  exact ⟨_, stream, _, hstream, .complete, rfl⟩

/-- A step creates a stream, or it is a step of at most one of them. -/
theorem step_streams (h : step crates cfg s action = some t) :
    t.streams = s.streams ++ [⟨State.initial, [], true⟩] ∨ t.streams = s.streams ∨
      ∃ index stream stream', s.streams[index]? = some stream ∧
        StreamStep crates cfg stream stream' ∧ t.streams = s.streams.set index stream' := by
  cases action with
  | newStream =>
      cases h
      exact Or.inl rfl
  | callback index action =>
      obtain ⟨stream, filter, hstream, hcallback, -, hfilter, rfl⟩ := callback_cases h
      exact Or.inr (Or.inr ⟨index, stream, _, hstream, .callback hcallback hfilter, rfl⟩)
  | claimId index =>
      obtain ⟨stream, hstream, hnext⟩ := Option.bind_eq_some_iff.mp h
      split at hnext
      · next hsubmits =>
          cases hnext
          exact Or.inr (Or.inr ⟨index, stream, _, hstream, .hand hsubmits, rfl⟩)
      · cases hnext
  | submit index =>
      obtain ⟨stream, hstream, hnext⟩ := Option.bind_eq_some_iff.mp h
      split at hnext
      · next hsubmits =>
          obtain ⟨position, -, hnext⟩ := Option.bind_eq_some_iff.mp hnext
          obtain ⟨reactor, -, hnext⟩ := Option.bind_eq_some_iff.mp hnext
          cases hnext
          exact Or.inr (Or.inr ⟨index, stream, _, hstream, .hand hsubmits, rfl⟩)
      · next hsubmits =>
          cases hnext
          exact Or.inr (Or.inr ⟨index, stream, _, hstream, .hand hsubmits, rfl⟩)
      · cases hnext
  | sendOpen index =>
      obtain ⟨reactor, -, hnext⟩ := Option.bind_eq_some_iff.mp h
      cases hnext
      exact Or.inr (Or.inl rfl)
  | destroy index =>
      obtain ⟨stream, hstream, hnext⟩ := Option.bind_eq_some_iff.mp h
      split at hnext
      · next hready =>
          cases hnext
          rw [Bool.and_eq_true, List.isEmpty_iff] at hready
          exact Or.inr (Or.inr ⟨index, stream, _, hstream, .destroy hready.2, rfl⟩)
      · cases hnext
  | dropInner index =>
      obtain ⟨reactor, -, hnext⟩ := Option.bind_eq_some_iff.mp h
      cases hnext
      exact Or.inr (Or.inl rfl)
  | shutdown =>
      cases h
      exact Or.inr (Or.inl rfl)
  | takeCommand =>
      obtain ⟨reactor, -, hnext⟩ := Option.bind_eq_some_iff.mp h
      cases hnext
      exact Or.inr (Or.inl rfl)
  | finishOpen index os descriptor =>
      obtain ⟨⟨reactor, onDone, result⟩, -, hnext⟩ := Option.bind_eq_some_iff.mp h
      exact Or.inr (Or.inr (runCallback_streams hnext))
  | finishRead index reply =>
      obtain ⟨⟨reactor, onDone, result⟩, -, hnext⟩ := Option.bind_eq_some_iff.mp h
      exact Or.inr (Or.inr (runCallback_streams hnext))
  | finishReadDir index result =>
      obtain ⟨⟨reactor, onDone, result'⟩, -, hnext⟩ := Option.bind_eq_some_iff.mp h
      exact Or.inr (Or.inr (runCallback_streams hnext))

/-- Each stream is fresh, as it was, or has made a step. -/
theorem step_stream (h : step crates cfg s action = some t)
    (hstream : t.streams[index]? = some stream') :
    stream' = ⟨State.initial, [], true⟩ ∨ s.streams[index]? = some stream' ∨
      ∃ stream, s.streams[index]? = some stream ∧ StreamStep crates cfg stream stream' := by
  obtain hnew | hsame | ⟨other, stream, next, hother, hnext, hset⟩ := step_streams h
  · rw [hnew] at hstream
    rcases Nat.lt_or_ge index s.streams.length with hlt | hge
    · rw [List.getElem?_append_left hlt] at hstream
      exact Or.inr (Or.inl hstream)
    · rw [List.getElem?_append_right hge] at hstream
      exact Or.inl (List.mem_singleton.mp (List.mem_of_getElem? hstream))
  · exact Or.inr (Or.inl (hsame ▸ hstream))
  · rw [hset] at hstream
    by_cases hindex : other = index
    · subst hindex
      obtain ⟨hlt, -⟩ := List.getElem?_eq_some_iff.mp hother
      rw [List.getElem?_set_self hlt] at hstream
      cases hstream
      exact Or.inr (Or.inr ⟨stream, hother, hnext⟩)
    · rw [List.getElem?_set_ne hindex] at hstream
      exact Or.inr (Or.inl hstream)

/-- The reads that a stream has still to send go through the handle it streams from. -/
def Stream.Ready (stream : Stream) : Prop :=
  ∀ handle offset len seq, .read handle offset len seq ∈ stream.submits →
    stream.filter.phase.handle = some handle

theorem StreamStep.ready (hstep : StreamStep crates cfg stream stream')
    (hbatch : stream.filter.batch = []) (h : stream.Ready) : stream'.Ready := by
  cases hstep with
  | callback hcallback hfilter =>
      obtain ⟨ops, hops, hown⟩ := callback_own hcallback hbatch hfilter
      intro handle offset len seq hread
      dsimp only at hread
      rw [hops, List.drop_left] at hread
      exact hown handle offset len seq hread
  | hand hsubmits =>
      intro handle offset len seq hread
      refine h handle offset len seq ?_
      rw [hsubmits]
      exact List.mem_cons_of_mem _ hread
  | destroy hsubmits =>
      intro handle offset len seq hread
      dsimp only at hread
      rw [hsubmits] at hread
      cases hread
  | complete =>
      intro handle offset len seq hread
      dsimp only
      rw [deliver_phase]
      exact h handle offset len seq hread

/-- Along a run whose ids do not run out, every stream can send what it has to send. -/
theorem run_ready {ok : Server → Action → Prop} {actions : List Action}
    (h : Sound crates cfg n s) (hdrawn : n + opens actions < CompioEngine.idRange)
    (hready : ∀ stream ∈ s.streams, stream.Ready)
    (hrun : ServerRun crates cfg ok s actions t) : ∀ stream ∈ t.streams, stream.Ready := by
  induction hrun generalizing n with
  | nil s => exact hready
  | @cons s u t action actions hok hstep hrest ih =>
      rw [opens_cons, ← add_assoc] at hdrawn
      refine ih (step_sound h (by omega) hstep) hdrawn fun stream' hmem => ?_
      obtain ⟨index, hstream⟩ := List.mem_iff_getElem?.mp hmem
      obtain rfl | hsame | ⟨stream, hfrom, hmade⟩ := step_stream hstep hstream
      · exact fun _ _ _ _ hread => absurd hread List.not_mem_nil
      · exact hready stream' (List.mem_of_getElem? hsame)
      · obtain ⟨earlier, halone⟩ := (h.streams index stream hfrom).run
        obtain ⟨-, -, hbatch⟩ := run_opensAlone halone
        exact hmade.ready hbatch (hready stream (List.mem_of_getElem? hfrom))

end Steps

/-! ## The turns of the engine -/

/-- The second half of `open_stat`, `HandleInner::drop` or a turn of the runtime thread. -/
def Action.isEngine : Action → Bool
  | .sendOpen _ => true
  | .dropInner _ => true
  | .takeCommand => true
  | .finishOpen _ _ _ => true
  | .finishRead _ _ => true
  | .finishReadDir _ _ => true
  | _ => false

/-- What is done for the callbacks once they have run. -/
def Action.isWork : Action → Bool
  | .claimId _ => true
  | .submit _ => true
  | action => action.isEngine

def Action.isSubmit : Action → Bool
  | .submit _ => true
  | _ => false

def Action.isShutdown : Action → Bool
  | .shutdown => true
  | _ => false

/-- The turns of the engine that an action leads to. -/
def Action.gain : Action → ℕ
  | .claimId _ => 6
  | .submit _ => 2
  | .shutdown => 1
  | _ => 0

/-- A count of what callbacks have still to send. -/
def total (count : List Op → ℕ) (s : Server) : ℕ :=
  (s.streams.map fun stream => count stream.submits).sum

/-- What is left to do, with what callbacks have still to send. -/
def weight (s : Server) : ℕ :=
  s.reactor.weight + 7 * s.total List.length

/-- The ids that callbacks have still to draw. -/
def unsent (s : Server) : ℕ :=
  s.total fun submits => submits.countP Op.isOpen

section Turns

variable {crates : Crates} {cfg : Config} {s t : Server} {action : Action}
  {actions : List Action} {ok : Server → Action → Prop} {reactor : Reactor OnDone}
  {onDone : OnDone} {completion : Completion}

/-- The end of a task leaves what its callback leaves of the engine. -/
theorem runCallback_weight (h : runCallback { s with reactor } onDone completion = some t) :
    t.reactor.weight ≤ reactor.weight := by
  obtain ⟨stream, event, -, -, rfl⟩ := runCallback_cases h
  exact reactor.release_weight _

/-- A turn of the engine takes from its work. -/
theorem engine_weight (hengine : action.isEngine = true) (h : step crates cfg s action = some t) :
    t.reactor.weight < s.reactor.weight := by
  cases action with
  | sendOpen index =>
      obtain ⟨reactor, hsend, hnext⟩ := Option.bind_eq_some_iff.mp h
      cases hnext
      exact Reactor.submitOpen_weight hsend
  | dropInner index =>
      obtain ⟨reactor, hdrop, hnext⟩ := Option.bind_eq_some_iff.mp h
      cases hnext
      exact Reactor.dropInner_weight hdrop
  | takeCommand =>
      obtain ⟨reactor, htake, hnext⟩ := Option.bind_eq_some_iff.mp h
      cases hnext
      exact Reactor.takeCommand_weight htake
  | finishOpen index os descriptor =>
      obtain ⟨⟨reactor, onDone, result⟩, hfinish, hnext⟩ := Option.bind_eq_some_iff.mp h
      exact (runCallback_weight hnext).trans_lt (Reactor.finishOpen_weight hfinish)
  | finishRead index reply =>
      obtain ⟨⟨reactor, onDone, result⟩, hfinish, hnext⟩ := Option.bind_eq_some_iff.mp h
      exact (runCallback_weight hnext).trans_lt (Reactor.finishRead_weight hfinish)
  | finishReadDir index result =>
      obtain ⟨⟨reactor, onDone, result'⟩, hfinish, hnext⟩ := Option.bind_eq_some_iff.mp h
      exact (runCallback_weight hnext).trans_lt (Reactor.finishReadDir_weight hfinish)
  | _ => cases hengine

/-- The other steps add no more to it than their gain. -/
theorem step_gain (h : step crates cfg s action = some t) :
    t.reactor.weight ≤ s.reactor.weight + action.gain := by
  by_cases hengine : action.isEngine = true
  · exact (engine_weight hengine h).le.trans (Nat.le_add_right _ _)
  · cases action with
    | newStream =>
        cases h
        exact le_rfl
    | callback index action =>
        obtain ⟨stream, filter, -, -, -, -, rfl⟩ := callback_cases h
        exact s.reactor.release_weight _
    | claimId index =>
        obtain ⟨stream, -, hnext⟩ := Option.bind_eq_some_iff.mp h
        split at hnext
        · cases hnext
          exact (s.reactor.claimId_weight _ _).le
        · cases hnext
    | submit index =>
        obtain ⟨stream, -, hnext⟩ := Option.bind_eq_some_iff.mp h
        split at hnext
        · obtain ⟨position, -, hnext⟩ := Option.bind_eq_some_iff.mp hnext
          obtain ⟨reactor, hread, hnext⟩ := Option.bind_eq_some_iff.mp hnext
          cases hnext
          exact Reactor.read_weight hread
        · cases hnext
          exact s.reactor.readDir_weight _ _
        · cases hnext
    | destroy index =>
        obtain ⟨stream, -, hnext⟩ := Option.bind_eq_some_iff.mp h
        split at hnext
        · cases hnext
          exact s.reactor.release_weight _
        · cases hnext
    | shutdown =>
        cases h
        exact s.reactor.shutdown_weight
    | _ => exact absurd rfl hengine

theorem turn_weight (h : step crates cfg s action = some t) :
    t.reactor.weight + (if action.isEngine then 1 else 0) ≤ s.reactor.weight + action.gain := by
  split
  · next hengine => exact Nat.le_add_right_of_le (engine_weight hengine h)
  · exact step_gain h

/-- The gains of a run, by the kinds of its actions. -/
theorem sum_gain (actions : List Action) :
    (actions.map Action.gain).sum =
      6 * opens actions + 2 * actions.countP Action.isSubmit +
        actions.countP Action.isShutdown := by
  induction actions with
  | nil => rfl
  | cons action actions ih =>
      rw [List.map_cons, List.sum_cons, ih, List.countP_cons, List.countP_cons]
      cases action <;> simp only [opens, Action.gain, Action.isSubmit, Action.isShutdown] <;>
        simp only [if_true, Bool.false_eq_true, if_false] <;> omega

theorem total_set (count : List Op → ℕ) {index : ℕ} {stream : Stream}
    (hstream : s.streams[index]? = some stream) (stream' : Stream)
    (hset : t.streams = s.streams.set index stream') :
    t.total count + count stream.submits = s.total count + count stream'.submits := by
  rw [total, total, hset]
  exact Transition.sum_map_set (fun stream : Stream => count stream.submits) hstream

theorem runCallback_total (h : runCallback { s with reactor } onDone completion = some t)
    (count : List Op → ℕ) : t.total count = s.total count := by
  obtain ⟨stream, event, hstream, -, heq⟩ := runCallback_cases h
  have htotal := total_set count hstream _ (congrArg Server.streams heq)
  exact Nat.add_right_cancel htotal

/-- A turn of the engine leaves the submissions; any other work hands one to the engine. -/
theorem work_total (hwork : action.isWork = true) (h : step crates cfg s action = some t) :
    (action.isEngine = true ∧ ∀ count, t.total count = s.total count) ∨
      action.isEngine = false ∧ ∃ op submits, opens [action] = (if op.isOpen then 1 else 0) ∧
        ∀ count, t.total count + count (op :: submits) = s.total count + count submits := by
  cases action with
  | claimId index =>
      obtain ⟨stream, hstream, hnext⟩ := Option.bind_eq_some_iff.mp h
      split at hnext
      · next request ctx submits hsubmits =>
          cases hnext
          refine Or.inr ⟨rfl, .openStat request ctx, submits, rfl, fun count => ?_⟩
          rw [← hsubmits]
          exact total_set count hstream { stream with submits } rfl
      · cases hnext
  | submit index =>
      obtain ⟨stream, hstream, hnext⟩ := Option.bind_eq_some_iff.mp h
      split at hnext
      · next handle offset len seq submits hsubmits =>
          obtain ⟨position, -, hnext⟩ := Option.bind_eq_some_iff.mp hnext
          obtain ⟨reactor, -, hnext⟩ := Option.bind_eq_some_iff.mp hnext
          cases hnext
          refine Or.inr ⟨rfl, .read handle offset len seq, submits, rfl, fun count => ?_⟩
          rw [← hsubmits]
          exact total_set count hstream { stream with submits } rfl
      · next path submits hsubmits =>
          cases hnext
          refine Or.inr ⟨rfl, .readDir path, submits, rfl, fun count => ?_⟩
          rw [← hsubmits]
          exact total_set count hstream { stream with submits } rfl
      · cases hnext
  | sendOpen index =>
      obtain ⟨reactor, -, hnext⟩ := Option.bind_eq_some_iff.mp h
      cases hnext
      exact Or.inl ⟨rfl, fun _ => rfl⟩
  | dropInner index =>
      obtain ⟨reactor, -, hnext⟩ := Option.bind_eq_some_iff.mp h
      cases hnext
      exact Or.inl ⟨rfl, fun _ => rfl⟩
  | takeCommand =>
      obtain ⟨reactor, -, hnext⟩ := Option.bind_eq_some_iff.mp h
      cases hnext
      exact Or.inl ⟨rfl, fun _ => rfl⟩
  | finishOpen index os descriptor =>
      obtain ⟨⟨reactor, onDone, result⟩, -, hnext⟩ := Option.bind_eq_some_iff.mp h
      exact Or.inl ⟨rfl, runCallback_total hnext⟩
  | finishRead index reply =>
      obtain ⟨⟨reactor, onDone, result⟩, -, hnext⟩ := Option.bind_eq_some_iff.mp h
      exact Or.inl ⟨rfl, runCallback_total hnext⟩
  | finishReadDir index result =>
      obtain ⟨⟨reactor, onDone, result'⟩, -, hnext⟩ := Option.bind_eq_some_iff.mp h
      exact Or.inl ⟨rfl, runCallback_total hnext⟩
  | newStream => cases hwork
  | callback index action => cases hwork
  | destroy index => cases hwork
  | shutdown => cases hwork

/-- All work takes from what is left to do. -/
theorem work_weight (hwork : action.isWork = true) (h : step crates cfg s action = some t) :
    t.weight < s.weight := by
  rw [weight, weight]
  obtain ⟨hengine, htotal⟩ | ⟨hengine, op, submits, -, htotal⟩ := work_total hwork h
  · rw [htotal]
    exact Nat.add_lt_add_right (engine_weight hengine h) _
  · have hreactor := step_gain h
    have hgain : action.gain ≤ 6 := by
      cases action <;> simp only [Action.gain] <;> omega
    have hlength := htotal List.length
    rw [List.length_cons] at hlength
    omega

/-- The ids that work draws are those that callbacks had to draw. -/
theorem work_unsent (hwork : action.isWork = true) (h : step crates cfg s action = some t) :
    t.unsent + opens [action] = s.unsent := by
  rw [unsent, unsent]
  obtain ⟨hengine, htotal⟩ | ⟨-, op, submits, hopens, htotal⟩ := work_total hwork h
  · have hopens : opens [action] = 0 := by
      cases action <;> first | rfl | cases hengine
    rw [htotal, hopens, Nat.add_zero]
  · have hcount := htotal fun submits => submits.countP Op.isOpen
    rw [List.countP_cons] at hcount
    rw [hopens]
    omega

/-- The engine never does more than it is asked for: in every run, the turns it has made and
those it has left are at most six for each `open_stat`, two for each other operation and one
for each shutdown. -/
theorem engine_turns_bounded (hrun : ServerRun crates cfg ok initial actions s) :
    s.reactor.weight + actions.countP Action.isEngine ≤
      6 * opens actions + 2 * actions.countP Action.isSubmit +
        actions.countP Action.isShutdown := by
  have hbound := hrun.potential (f := fun s => s.reactor.weight)
    (fun _ _ _ _ hstep => turn_weight hstep)
  rw [sum_gain] at hbound
  have hturns : (actions.map fun action => if action.isEngine then 1 else 0).sum =
      actions.countP Action.isEngine := by
    clear hrun hbound
    induction actions with
    | nil => rfl
    | cons action actions ih =>
        rw [List.map_cons, List.sum_cons, ih, List.countP_cons, add_comm]
  rw [hturns] at hbound
  exact hbound.trans (Nat.zero_add _).le

theorem engine_turns_bounded_opened :
    ∃ s, replayed openedActions = some s ∧
      s.reactor.weight + openedActions.countP Action.isEngine ≤ 6 := by
  have hsome : (replayed openedActions).isSome = true := by decide
  obtain ⟨s, hs⟩ := Option.isSome_iff_exists.mp hsome
  exact ⟨s, hs, engine_turns_bounded (replayed_run hs)⟩

end Turns

/-! ## No turn left -/

/-- Neither the engine nor a callback that has run has anything left to do. -/
structure Quiescent (s : Server) : Prop where
  engine : s.reactor.Quiescent
  submits : ∀ stream ∈ s.streams, stream.submits = []

/-- No work can be done. -/
def Stuck (crates : Crates) (cfg : Config) (s : Server) : Prop :=
  ∀ action, action.isWork = true → step crates cfg s action = none

section Rest

variable {crates : Crates} {cfg : Config} {n : ℕ} {s t : Server} {action : Action} {index : ℕ}
  {stream : Stream} {handle : FileHandle} {onDone : OnDone} {completion : Completion}
  {event : IoEvent}

/-- The handle that a stream holds is found among those that are alive. -/
theorem Sound.finds_handle (h : Sound crates cfg n s) (hstream : s.streams[index]? = some stream)
    (hheld : handle ∈ stream.held) :
    ∃ position entry, s.reactor.handles.findIdx? (ownHandle index handle) = some position ∧
      s.reactor.handles[position]? = some entry := by
  rw [← Multiset.mem_coe, ← (h.streams index stream hstream).handles, Multiset.mem_coe] at hheld
  obtain ⟨entry, hentry, hid⟩ := List.mem_map.mp hheld
  obtain ⟨hmem, hown⟩ := List.mem_filter.mp hentry
  have hfound : (s.reactor.handles.findIdx? (ownHandle index handle)).isSome = true := by
    rw [List.findIdx?_isSome, List.any_eq_true]
    refine ⟨entry, hmem, ?_⟩
    rw [ownHandle, ← hid]
    simpa using hown
  obtain ⟨position, hposition⟩ := Option.isSome_iff_exists.mp hfound
  obtain ⟨hlt, -⟩ := List.findIdx?_eq_some_iff_getElem.mp hposition
  exact ⟨position, _, hposition, List.getElem?_eq_getElem hlt⟩

/-- A stream that streams from a handle holds it. -/
theorem held_of_phase (halive : stream.alive = true)
    (hphase : stream.filter.phase.handle = some handle) : handle ∈ stream.held := by
  rw [Stream.held, if_pos halive, State.held, hphase]
  exact List.mem_append_left _ List.mem_cons_self

/-- A callback that has run can send what it submits. -/
theorem Stuck.submits (hstuck : Stuck crates cfg s) (h : Sound crates cfg n s)
    (hready : stream.Ready) (hstream : s.streams[index]? = some stream) :
    stream.submits = [] := by
  by_contra hsubmits
  obtain ⟨op, submits, hcons⟩ := List.exists_cons_of_ne_nil hsubmits
  have halive : stream.alive = true := by
    by_contra hdead
    exact hsubmits ((h.streams index stream hstream).dropped (by simpa using hdead)).2
  cases op with
  | openStat request ctx =>
      have hnone := hstuck (.claimId index) rfl
      rw [step, claimId, hstream, Option.bind_eq_bind, Option.bind_some, hcons] at hnone
      cases hnone
  | read handle offset len seq =>
      have hphase := hready handle offset len seq (hcons ▸ List.mem_cons_self)
      obtain ⟨position, entry, hfound, hentry⟩ :=
        h.finds_handle hstream (held_of_phase halive hphase)
      have hnone := hstuck (.submit index) rfl
      rw [step, submit, hstream, Option.bind_eq_bind, Option.bind_some, hcons] at hnone
      dsimp only at hnone
      rw [hfound, Option.bind_eq_bind, Option.bind_some, Reactor.read, hentry] at hnone
      cases hnone
  | readDir path =>
      have hnone := hstuck (.submit index) rfl
      rw [step, submit, hstream, Option.bind_eq_bind, Option.bind_some, hcons] at hnone
      cases hnone

/-- The callback of a job can run. -/
theorem Sound.calls_back (h : Sound crates cfg n s) {job : Job OnDone}
    (hjob : job ∈ s.reactor.jobs) (hevent : job.onDone.op.onDone completion = some event)
    (reactor : Reactor OnDone) :
    runCallback { s with reactor } job.onDone completion ≠ none := by
  obtain ⟨hlt, -⟩ := h.jobs job hjob
  rw [runCallback]
  dsimp only
  rw [List.getElem?_eq_getElem hlt, Option.bind_eq_bind, Option.bind_some, hevent]
  exact Option.some_ne_none _

theorem Stuck.opening (hstuck : Stuck crates cfg s) (h : Sound crates cfg n s) :
    s.reactor.opening = [] := by
  by_contra hopening
  obtain ⟨⟨⟨id, request⟩, onDone⟩, rest, hcons⟩ := List.exists_cons_of_ne_nil hopening
  have hitem : s.reactor.opening[0]? = some ((id, request), onDone) := by
    rw [hcons]
    rfl
  obtain ⟨reactor, result, hfinish⟩ :=
    Reactor.finishOpen_isSome hitem (Os.ofTree fun _ => none) 0
  obtain ⟨id', request', -, -, -, hjobs⟩ := Reactor.finishOpen_jobs hfinish
  have hjob : Job.openStat id' request' onDone ∈ s.reactor.jobs :=
    hjobs ▸ Multiset.mem_cons_self _ _
  obtain ⟨ctx, hop⟩ := (h.jobs _ hjob).2
  obtain ⟨event, hevent⟩ : ∃ event,
      onDone.op.onDone (.openStat (openResult result)) = some event := by
    rw [hop]
    cases result <;> exact ⟨_, rfl⟩
  have hnone := hstuck (.finishOpen 0 (Os.ofTree fun _ => none) 0) rfl
  rw [step, finishOpen, hfinish] at hnone
  exact h.calls_back hjob hevent reactor hnone

theorem Stuck.reading (hstuck : Stuck crates cfg s) (h : Sound crates cfg n s) :
    s.reactor.reading = [] := by
  by_contra hreading
  obtain ⟨⟨task, onDone⟩, rest, hcons⟩ := List.exists_cons_of_ne_nil hreading
  have hfinish : s.reactor.finishRead 0 (fun _ _ _ => .ok []) =
      some ({ s.reactor with reading := s.reactor.reading.eraseIdx 0 }, onDone,
        Reactor.readResult task fun _ _ _ => .ok []) := by
    rw [Reactor.finishRead, hcons]
    rfl
  obtain ⟨task', -, hjobs, -⟩ := Reactor.finishRead_jobs hfinish
  have hjob : Job.read task'.handle task'.offset task'.len onDone ∈ s.reactor.jobs :=
    hjobs ▸ Multiset.mem_cons_self _ _
  obtain ⟨seq, hop⟩ := (h.jobs _ hjob).2
  obtain ⟨event, hevent⟩ : ∃ event, onDone.op.onDone
      (.read (Reactor.readResult task fun _ _ _ => .ok [])) = some event := by
    rw [hop]
    exact ⟨_, rfl⟩
  have hnone := hstuck (.finishRead 0 fun _ _ _ => .ok []) rfl
  rw [step, finishRead, hfinish] at hnone
  exact h.calls_back hjob hevent _ hnone

theorem Stuck.listing (hstuck : Stuck crates cfg s) (h : Sound crates cfg n s) :
    s.reactor.listing = [] := by
  by_contra hlisting
  obtain ⟨⟨path, onDone⟩, rest, hcons⟩ := List.exists_cons_of_ne_nil hlisting
  have hfinish : s.reactor.finishReadDir 0 (.ok []) =
      some ({ s.reactor with listing := s.reactor.listing.eraseIdx 0 }, onDone, .ok []) := by
    rw [Reactor.finishReadDir, hcons]
    rfl
  obtain ⟨path', -, hjobs, -⟩ := Reactor.finishReadDir_jobs hfinish
  have hjob : Job.readDir path' onDone ∈ s.reactor.jobs :=
    hjobs ▸ Multiset.mem_cons_self _ _
  have hop : onDone.op = .readDir path' := (h.jobs _ hjob).2
  obtain ⟨event, hevent⟩ : ∃ event, onDone.op.onDone (.readDir (.ok [])) = some event := by
    rw [hop]
    exact ⟨_, rfl⟩
  have hnone := hstuck (.finishReadDir 0 (.ok [])) rfl
  rw [step, finishReadDir, hfinish] at hnone
  exact h.calls_back hjob hevent _ hnone

/-- Where no work can be done, none is left. -/
theorem quiescent_of_stuck (h : Sound crates cfg n s)
    (hready : ∀ stream ∈ s.streams, stream.Ready) (hstuck : Stuck crates cfg s) :
    Quiescent s where
  engine :=
    { submitting := by
        by_contra hsubmitting
        obtain ⟨item, rest, hcons⟩ := List.exists_cons_of_ne_nil hsubmitting
        have hnone := hstuck (.sendOpen 0) rfl
        rw [step, sendOpen, Reactor.submitOpen, hcons] at hnone
        cases hnone
      dropping := by
        by_contra hdropping
        obtain ⟨inner, rest, hcons⟩ := List.exists_cons_of_ne_nil hdropping
        have hnone := hstuck (.dropInner 0) rfl
        rw [step, dropInner, Reactor.dropInner, hcons] at hnone
        cases hnone
      commands := by
        intro hrunning
        by_contra hcommands
        obtain ⟨reactor, htake⟩ := Reactor.takeCommand_isSome hrunning hcommands
        have hnone := hstuck .takeCommand rfl
        rw [step, takeCommand, htake] at hnone
        cases hnone
      opening := hstuck.opening h
      reading := hstuck.reading h
      listing := hstuck.listing h }
  submits stream hmem := by
    obtain ⟨index, hstream⟩ := List.mem_iff_getElem?.mp hmem
    exact hstuck.submits h (hready stream hmem) hstream

/-- Where none is left, none can be done. -/
theorem Quiescent.stuck (h : Quiescent s) : Stuck crates cfg s := by
  intro action hwork
  cases action with
  | claimId index =>
      rw [step, claimId]
      cases hstream : s.streams[index]? with
      | none => rfl
      | some stream =>
          rw [Option.bind_eq_bind, Option.bind_some, h.submits stream (List.mem_of_getElem? hstream)]
  | submit index =>
      rw [step, submit]
      cases hstream : s.streams[index]? with
      | none => rfl
      | some stream =>
          rw [Option.bind_eq_bind, Option.bind_some, h.submits stream (List.mem_of_getElem? hstream)]
  | sendOpen index =>
      rw [step, sendOpen, Reactor.submitOpen, h.engine.submitting]
      rfl
  | dropInner index =>
      rw [step, dropInner, Reactor.dropInner, h.engine.dropping]
      rfl
  | takeCommand =>
      rw [step, takeCommand, Reactor.takeCommand]
      split
      · next hrunning =>
          rw [h.engine.commands hrunning]
          rfl
      · rfl
  | finishOpen index os descriptor =>
      rw [step, finishOpen, Reactor.finishOpen, h.engine.opening]
      rfl
  | finishRead index reply =>
      rw [step, finishRead, Reactor.finishRead, h.engine.reading]
      rfl
  | finishReadDir index result =>
      rw [step, finishReadDir, Reactor.finishReadDir, h.engine.listing]
      rfl
  | _ => cases hwork

/-- In a quiescent server no stream waits for the engine. -/
theorem Quiescent.pending (hquiet : Quiescent s) (h : Sound crates cfg n s)
    (hrunning : s.reactor.running = true) (hstream : s.streams[index]? = some stream) :
    stream.filter.pending = [] := by
  have hops := (h.streams index stream hstream).ops hrunning
  rw [hquiet.engine.jobs hrunning, hquiet.submits stream (List.mem_of_getElem? hstream)] at hops
  exact (Multiset.coe_eq_zero _).mp hops.symm

end Rest

/-! ## Runs that come to rest -/

section Runs

variable {crates : Crates} {cfg : Config} {ok : Server → Action → Prop} {s t : Server}
  {actions : List Action} {index : ℕ} {stream : Stream}

/-- A run from the initial state keeps the accounts, and its streams can send. -/
theorem run_accounts (hdrawn : opens actions < CompioEngine.idRange)
    (hrun : ServerRun crates cfg ok initial actions s) :
    Sound crates cfg (opens actions) s ∧ ∀ stream ∈ s.streams, stream.Ready := by
  have hzero : 0 + opens actions < CompioEngine.idRange := by rwa [zero_add]
  have hsound := run_sound sound_initial hzero hrun
  rw [zero_add] at hsound
  exact ⟨hsound, run_ready sound_initial hzero
    (fun stream hmem => absurd hmem List.not_mem_nil) hrun⟩

/-- Nothing gets stuck: in every state that a run reaches, something can be done for the
callbacks unless nothing is left to do. -/
theorem server_stuck_iff (hdrawn : opens actions < CompioEngine.idRange)
    (hrun : ServerRun crates cfg ok initial actions s) :
    Stuck crates cfg s ↔ Quiescent s := by
  obtain ⟨hsound, hready⟩ := run_accounts hdrawn hrun
  exact ⟨quiescent_of_stuck hsound hready, Quiescent.stuck⟩

/-- The server rests while an event is on its way. -/
theorem opened_rests :
    ∃ s, replayed openedActions = some s ∧ s.reactor.running = true ∧ Quiescent s := by
  have hfacts : (replayed openedActions).map (fun s =>
      s.reactor.running && s.reactor.submitting.isEmpty && s.reactor.dropping.isEmpty &&
        s.reactor.commands.isEmpty && s.reactor.opening.isEmpty && s.reactor.reading.isEmpty &&
        s.reactor.listing.isEmpty && s.streams.all fun stream => stream.submits.isEmpty) =
      some true := by
    decide
  obtain ⟨s, hs, hfacts⟩ := Option.map_eq_some_iff.mp hfacts
  simp only [Bool.and_eq_true, List.isEmpty_iff, List.all_eq_true] at hfacts
  obtain ⟨⟨⟨⟨⟨⟨⟨hrunning, hsubmitting⟩, hdropping⟩, hcommands⟩, hopening⟩, hreading⟩, hlisting⟩,
    hsubmits⟩ := hfacts
  exact ⟨s, hs, hrunning,
    ⟨⟨hsubmitting, hdropping, fun _ => hcommands, hopening, hreading, hlisting⟩, hsubmits⟩⟩

theorem server_stuck_iff_opened :
    ∃ s, replayed openedActions = some s ∧
      (Stuck Crates.plain (Config.defaults ⟨"/srv"⟩) s ↔ Quiescent s) := by
  obtain ⟨s, hs, -, -⟩ := opened_rests
  exact ⟨s, hs, server_stuck_iff (by decide) (replayed_run hs)⟩

theorem run_opens {work : List Action} (hwork : ∀ s action, ok s action → action.isWork = true)
    (hrun : ServerRun crates cfg ok s work t) : t.unsent + opens work = s.unsent := by
  induction hrun with
  | nil s => rfl
  | @cons s u t action work hok hstep hrest ih =>
      have hfirst := work_unsent (hwork s action hok) hstep
      rw [opens_cons]
      omega

/-- What is left to do is done: from every state that a run reaches, whatever the order in
which the threads go on, at most `weight` steps are left until the server is quiescent, and
some order leads there. -/
theorem server_drains (hdrawn : opens actions + s.unsent < CompioEngine.idRange)
    (hrun : ServerRun crates cfg ok initial actions s) :
    (∀ work t, ServerRun crates cfg (fun _ action => action.isWork = true) s work t →
      t.weight + work.length ≤ s.weight ∧ (Stuck crates cfg t → Quiescent t)) ∧
    ∃ work t, ServerRun crates cfg (fun _ action => action.isWork = true) s work t ∧
      Quiescent t := by
  have hend {work : List Action} {t : Server}
      (hwork : ServerRun crates cfg (fun _ action => action.isWork = true) s work t)
      (hstuck : Stuck crates cfg t) : Quiescent t := by
    have hopens := run_opens (fun _ _ hok => hok) hwork
    obtain ⟨hsound, hready⟩ := run_accounts (by omega) hrun
    refine quiescent_of_stuck (run_sound hsound (by omega) hwork) ?_ hstuck
    exact run_ready hsound (by omega) hready hwork
  refine ⟨fun work t hwork => ⟨?_, hend hwork⟩, ?_⟩
  · exact hwork.length_le fun _ _ _ hok hstep => work_weight hok hstep
  · obtain ⟨work, t, hwork, hstuck⟩ : ∃ work t,
        ServerRun crates cfg (fun _ action => action.isWork = true) s work t ∧
          Stuck crates cfg t :=
      Transition.exists_stuck (f := weight) (fun _ _ _ hok hstep => work_weight hok hstep) s
    exact ⟨work, t, hwork, hend hwork hstuck⟩

theorem server_drains_asked :
    ∃ s, replayed askedActions = some s ∧ s.weight = 7 ∧ ∃ work t,
      ServerRun Crates.plain (Config.defaults ⟨"/srv"⟩) (fun _ action => action.isWork = true)
        s work t ∧ Quiescent t := by
  have hfacts : (replayed askedActions).map (fun s => (s.weight, s.unsent)) = some (7, 1) := by
    decide
  obtain ⟨s, hs, hfacts⟩ := Option.map_eq_some_iff.mp hfacts
  obtain ⟨hweight, hunsent⟩ := Prod.mk.inj hfacts
  refine ⟨s, hs, hweight, (server_drains ?_ (replayed_run hs)).2⟩
  rw [hunsent]
  decide

/-- A server that rests owes nothing: no stream waits for the engine, and a stream that has
asked and goes on has ended its response, has a wakeup coming or waits for its client. -/
theorem server_never_stalls (hmax : 1 ≤ cfg.maxInflightReads)
    (hdrawn : opens actions < CompioEngine.idRange)
    (hrun : ServerRun crates cfg ok initial actions s) (hrunning : s.reactor.running = true)
    (hquiet : Quiescent s) (hstream : s.streams[index]? = some stream) :
    stream.filter.pending = [] ∧
      (stream.filter.complete = false → stream.filter.phase ≠ .idle →
        stream.filter.phase = .done ∨ 0 < stream.filter.delivering + stream.filter.commits ∨
          ∃ st, stream.filter.phase = .streaming st ∧ 0 < st.watermarkDepth) := by
  obtain ⟨hsound, -⟩ := run_accounts hdrawn hrun
  have hpending := hquiet.pending hsound hrunning hstream
  refine ⟨hpending, fun hactive hasked => ?_⟩
  obtain ⟨earlier, halone⟩ := (hsound.streams index stream hstream).run
  have hlive := live_run hmax halone
  obtain hdone | hwaits | hevents | hcommits | hpaused := hlive.awaits hactive hasked
  · exact Or.inl hdone
  · exact absurd hpending hwaits
  · exact Or.inr (Or.inl (hlive.woken.commit hevents))
  · exact Or.inr (Or.inl hcommits)
  · exact Or.inr (Or.inr hpaused)

theorem server_never_stalls_opened :
    ∃ s stream, replayed openedActions = some s ∧ s.streams[0]? = some stream ∧
      stream.filter.pending = [] ∧ 0 < stream.filter.delivering + stream.filter.commits := by
  obtain ⟨s, hs, hrunning, hquiet⟩ := opened_rests
  have hfacts : ((replayed openedActions).bind fun s => s.streams[0]?).map (fun stream =>
      (stream.filter.complete, stream.filter.phase.isResolving)) = some (false, true) := by
    decide
  obtain ⟨stream, hstream, hfacts⟩ := Option.map_eq_some_iff.mp hfacts
  obtain ⟨hactive, hresolving⟩ := Prod.mk.inj hfacts
  obtain ⟨s', hs', hstream⟩ := Option.bind_eq_some_iff.mp hstream
  cases hs.symm.trans hs'
  obtain ⟨hpending, hwaits⟩ := server_never_stalls (by decide) (by decide) (replayed_run hs)
    hrunning hquiet hstream
  refine ⟨s, stream, hs, hstream, hpending, ?_⟩
  obtain hdone | hcommits | ⟨st, hst, -⟩ := hwaits hactive fun hidle => by
    rw [hidle] at hresolving
    cases hresolving
  · rw [hdone] at hresolving
    cases hresolving
  · exact hcommits
  · rw [hst] at hresolving
    cases hresolving

/-- No descriptor leaks: where the server rests, a file is open if and only if a stream that
has not been dropped holds its handle. -/
theorem open_files_are_held (hdrawn : opens actions < CompioEngine.idRange)
    (hrun : ServerRun crates cfg ok initial actions s) (hrunning : s.reactor.running = true)
    (hquiet : Quiescent s) (id : ℕ) :
    (∃ file, s.reactor.files.lookup id = some file) ↔
      id ≠ 0 ∧ ∃ stream ∈ s.streams, ⟨id⟩ ∈ stream.held := by
  obtain ⟨hsound, -⟩ := run_accounts hdrawn hrun
  have htable := (hsound.exact hrunning).quiescent hquiet.engine hrunning id
  constructor
  · rintro ⟨file, hfile⟩
    obtain ⟨entry, hentry, hinner, hid⟩ := (htable file).mp hfile
    obtain ⟨stream, hstream⟩ : ∃ stream, s.streams[entry.2.stream]? = some stream :=
      ⟨_, List.getElem?_eq_getElem (hsound.handles entry hentry)⟩
    refine ⟨hid, stream, List.mem_of_getElem? hstream, ?_⟩
    rw [← Multiset.mem_coe, ← (hsound.streams _ stream hstream).handles, Multiset.mem_coe]
    have hown := mem_handlesOf hentry
    rw [hinner] at hown
    exact hown
  · rintro ⟨hid, stream, hmem, hheld⟩
    obtain ⟨index, hstream⟩ := List.mem_iff_getElem?.mp hmem
    rw [← Multiset.mem_coe, ← (hsound.streams index stream hstream).handles,
      Multiset.mem_coe] at hheld
    obtain ⟨entry, hentry, hown⟩ := List.mem_map.mp hheld
    obtain ⟨hmem, -⟩ := List.mem_filter.mp hentry
    refine ⟨entry.1.file, (htable _).mpr ⟨entry, hmem, ?_, hid⟩⟩
    have hid' := congrArg FileHandle.id hown
    dsimp only at hid'
    rw [← hid']

theorem open_files_are_held_opened :
    ∃ s file, replayed openedActions = some s ∧ s.reactor.files.lookup 1 = some file ∧
      ∃ stream ∈ s.streams, ⟨1⟩ ∈ stream.held := by
  obtain ⟨s, hs, hrunning, hquiet⟩ := opened_rests
  have hfile : ((replayed openedActions).bind fun s => s.reactor.files.lookup 1).isSome =
      true := by
    decide
  obtain ⟨file, hfile⟩ := Option.isSome_iff_exists.mp hfile
  obtain ⟨s', hs', hfile⟩ := Option.bind_eq_some_iff.mp hfile
  cases hs.symm.trans hs'
  exact ⟨s, file, hs, hfile, ((open_files_are_held (by decide) (replayed_run hs) hrunning hquiet
    1).mp ⟨file, hfile⟩).2⟩

end Runs

end Server

end EnvoyFiles
