import EnvoyFiles.Filter.EventBridge
import EnvoyFiles.Support.History
import EnvoyFiles.Support.Transition

/-!
# The event bridge over whole histories

Every operation on the bridge runs under its lock, so the history of any number
of threads is a list of operations.  First the fence: which histories keep a
closed bridge closed.  Then the mailbox before it is closed: producers that
send and commit, and a consumer that drains once for each commit.
-/

namespace EnvoyFiles.EventBridge

open History

variable {T : Type*}

/-! ## The fence -/

inductive Op (T : Type*) where
  | send (event : T)
  | process
  | close

def Op.isSend : Op T → Bool
  | .send _ => true
  | _ => false

/-- The state of the bridge behind an operation. -/
def perform (inner : Inner T) : Op T → Inner T
  | .send event => (send inner event).1
  | .process => (process inner).1
  | .close => close inner

/-- The state of a new bridge behind a history. -/
def reached (ops : List (Op T)) : Inner T :=
  ops.foldl perform .empty

/-- A closed bridge hands back what is sent and gives nothing to the
callback. -/
def ClosedBehaviour (before : List (Op T)) : Op T → Prop
  | .send event => (send (reached before) event).2 = .error event
  | .process => (process (reached before)).2 = []
  | .close => True

/-- From the first close on every operation finds the bridge closed. -/
def ClosedForGood (ops : List (Op T)) : Prop :=
  Always (fun before op => Op.close ∈ before → ClosedBehaviour before op) ops

/-- The last drain or close of a history. -/
def lastFence (ops : List (Op T)) : Option (Op T) :=
  (ops.filter fun op => !op.isSend).getLast?

/-- No event is sent behind a drain that came after a close, unless the bridge
was closed once more. -/
def Fenced (ops : List (Op T)) : Prop :=
  Always (fun before op => op.isSend = true → Op.close ∈ before →
    lastFence before = some .close) ops

@[simp] theorem reached_snoc (ops : List (Op T)) (op : Op T) :
    reached (ops ++ [op]) = perform (reached ops) op := by
  simp [reached, List.foldl_append]

theorem lastFence_snoc_send (ops : List (Op T)) (event : T) :
    lastFence (ops ++ [.send event]) = lastFence ops := by
  simp [lastFence, List.filter_append, Op.isSend]

theorem lastFence_snoc {ops : List (Op T)} {op : Op T} (h : op.isSend = false) :
    lastFence (ops ++ [op]) = some op := by
  simp [lastFence, List.filter_append, h]

/-- A send finds the bridge closed exactly when its event comes back. -/
theorem send_eq_error {inner : Inner T} {event : T} :
    (send inner event).2 = .error event ↔ inner = .closed := by
  rcases send_cases inner event with ⟨hok, hevents⟩ | ⟨hsend, hclosed⟩
  · constructor
    · intro herror
      rw [hok] at herror
      nomatch herror
    · rintro rfl
      nomatch hok
  · refine ⟨fun _ => hclosed, fun _ => ?_⟩
    rw [hsend]

/-- The bridge is closed when its last drain or close was a close. -/
theorem reached_eq_closed {ops : List (Op T)} :
    reached ops = .closed ↔ lastFence ops = some .close := by
  induction ops using List.reverseRecOn with
  | nil => exact ⟨nofun, nofun⟩
  | append_singleton ops op ih =>
      rw [reached_snoc]
      cases op with
      | send event =>
          rw [lastFence_snoc_send, ← ih]
          rcases send_cases (reached ops) event with ⟨hok, hevents⟩ | ⟨hsend, hclosed⟩
          · constructor
            · intro hclosed
              have hempty := congrArg Inner.events hclosed
              rw [perform, hevents, events_closed] at hempty
              exact absurd hempty (List.append_ne_nil_of_right_ne_nil _ (List.cons_ne_nil _ _))
            · intro hclosed
              rw [hclosed] at hok
              nomatch hok
          · rw [perform, hsend]
            exact ⟨fun _ => hclosed, fun _ => rfl⟩
      | process =>
          rw [lastFence_snoc rfl, perform, process_fst]
          exact ⟨nofun, nofun⟩
      | close =>
          rw [lastFence_snoc rfl]
          exact ⟨fun _ => rfl, fun _ => rfl⟩

/-- Behind a close nothing waits in a bridge that was fenced. -/
theorem reached_events_of_fenced {ops : List (Op T)} (hfenced : Fenced ops)
    (hclose : Op.close ∈ ops) : (reached ops).events = [] := by
  rcases List.eq_nil_or_concat ops with rfl | ⟨before, op, rfl⟩
  · nomatch hclose
  · rw [List.concat_eq_append] at *
    rw [reached_snoc]
    cases op with
    | send event =>
        have hearlier : Op.close ∈ before := by
          rcases List.mem_append.mp hclose with hbefore | hlast
          · exact hbefore
          · nomatch List.mem_singleton.mp hlast
        have hclosed := reached_eq_closed.mpr (hfenced.last rfl hearlier)
        rw [perform, hclosed]
        rfl
    | process => rw [perform, process_fst, events_empty]
    | close => rfl

/-- A closed bridge stays closed exactly in the histories in which nothing is
sent behind a drain of it. -/
theorem closed_for_good_iff (ops : List (Op T)) : ClosedForGood ops ↔ Fenced ops := by
  constructor
  · rintro hclosed before op after hops hsend hclose
    cases op with
    | send event =>
        exact reached_eq_closed.mp (send_eq_error.mp (hclosed before _ after hops hclose))
    | process => nomatch hsend
    | close => nomatch hsend
  · intro hfenced before op after hops hclose
    cases op with
    | send event =>
        exact send_eq_error.mpr (reached_eq_closed.mpr (hfenced before _ after hops rfl hclose))
    | process =>
        have hbefore : Fenced before := by
          rintro before' op' after' rfl
          apply hfenced before' op' (after' ++ Op.process :: after)
          rw [hops, List.append_assoc, List.cons_append]
        rw [ClosedBehaviour, process_snd]
        exact reached_events_of_fenced hbefore hclose
    | close => trivial

/-- A drain that was scheduled before the close opens the bridge again. -/
theorem drain_reopens_closed_bridge :
    ¬∀ ops : List (Op ℕ), ClosedForGood ops := by
  intro hclosed
  have hsend := hclosed [.close, .process, .send 7] [.close, .process] (.send 7) [] rfl
    List.mem_cons_self
  nomatch hsend

/-! ## Delivery -/

section Delivery

variable {P : Type*}

/-- The bridge with its producers and its consumer before it is closed. -/
structure Mailbox (P T : Type*) where
  bridge : Inner T
  /-- Producers between a successful send and its commit. -/
  delivering : List P
  /-- Commits whose `on_scheduled` has not run. -/
  commits : ℕ
  /-- The events whose send returned `Ok`, in order. -/
  accepted : List T
  /-- The events given to the callback, in order. -/
  handed : List T

/-- What the producers and the consumer do, one locked step at a time. -/
inductive Mailbox.Action (P T : Type*) where
  /-- `Waker::deliver` sends. -/
  | send (producer : P) (event : T)
  /-- `Waker::deliver` commits. -/
  | commit (producer : P)
  /-- The consumer commits for itself, below the low watermark. -/
  | wake
  /-- `on_scheduled` drains. -/
  | drain

namespace Mailbox

def new : Mailbox P T :=
  ⟨.empty, [], 0, [], []⟩

def step [DecidableEq P] (s : Mailbox P T) : Action P T → Option (Mailbox P T)
  | .send producer event =>
      if producer ∈ s.delivering then
        none
      else
        let (bridge, result) := EventBridge.send s.bridge event
        match result with
        | .ok () =>
            some
              { s with
                bridge := bridge
                delivering := producer :: s.delivering
                accepted := s.accepted ++ [event] }
        | .error _ => some { s with bridge := bridge }
  | .commit producer =>
      if producer ∈ s.delivering then
        some
          { s with
            delivering := s.delivering.erase producer
            commits := s.commits + 1 }
      else
        none
  | .wake => some { s with commits := s.commits + 1 }
  | .drain =>
      if 0 < s.commits then
        let (bridge, events) := EventBridge.process s.bridge
        some
          { s with
            bridge := bridge
            commits := s.commits - 1
            handed := s.handed ++ events }
      else
        none

/-- The mailbox is a queue of the accepted events, and what waits in it is
woken for. -/
structure Sound (s : Mailbox P T) : Prop where
  queue : s.handed ++ s.bridge.events = s.accepted
  woken : s.bridge.events ≠ [] → 0 < s.commits ∨ s.delivering ≠ []

theorem sound_new : (new : Mailbox P T).Sound where
  queue := rfl
  woken h := absurd rfl h

variable [DecidableEq P]

theorem Sound.step {s t : Mailbox P T} {action : Action P T} (hsound : s.Sound)
    (hstep : s.step action = some t) : t.Sound := by
  cases action with
  | send producer event =>
      by_cases hbusy : producer ∈ s.delivering
      · simp [Mailbox.step, hbusy] at hstep
      · rcases send_cases s.bridge event with ⟨hok, hevents⟩ | ⟨hsend, hclosed⟩
        · simp only [Mailbox.step, if_neg hbusy, hok, Option.some.injEq] at hstep
          subst hstep
          refine ⟨?_, fun _ => Or.inr (List.cons_ne_nil _ _)⟩
          dsimp only
          rw [hevents, ← List.append_assoc, hsound.queue]
        · simp only [Mailbox.step, if_neg hbusy, hsend, Option.some.injEq] at hstep
          subst hstep
          refine ⟨?_, fun h => absurd rfl h⟩
          have hqueue := hsound.queue
          rw [hclosed] at hqueue
          exact hqueue
  | commit producer =>
      by_cases hbusy : producer ∈ s.delivering
      · simp only [Mailbox.step, if_pos hbusy, Option.some.injEq] at hstep
        subst hstep
        exact ⟨hsound.queue, fun _ => Or.inl (Nat.succ_pos _)⟩
      · simp [Mailbox.step, hbusy] at hstep
  | wake =>
      cases hstep
      exact ⟨hsound.queue, fun _ => Or.inl (Nat.succ_pos _)⟩
  | drain =>
      by_cases hcommits : 0 < s.commits
      · simp only [Mailbox.step, if_pos hcommits, Option.some.injEq] at hstep
        subst hstep
        constructor
        · simp only [process_fst, process_snd, events_empty, List.append_nil]
          exact hsound.queue
        · intro h
          simp only [process_fst, events_empty] at h
          exact absurd rfl h
      · simp [Mailbox.step, hcommits] at hstep

/-- Nothing is lost, duplicated or reordered, and an event that waits has a
drain ahead of it. -/
theorem delivers_in_order_and_wakes {s : Mailbox P T} {actions : List (Action P T)}
    (hrun : Transition.Run step (fun _ _ => True) new actions s) :
    s.handed ++ s.bridge.events = s.accepted ∧
      (s.bridge.events ≠ [] → 0 < s.commits ∨ s.delivering ≠ []) := by
  have hsound : s.Sound :=
    hrun.invariant sound_new fun _ _ _ hsound _ hstep => hsound.step hstep
  exact ⟨hsound.queue, hsound.woken⟩

/-- Two producers overlap, and a drain runs before the second commit. -/
theorem delivers_in_order_and_wakes_overlapping :
    ∃ s : Mailbox ℕ ℕ, s.accepted = [10, 20, 11] ∧ s.handed = [10, 20] ∧
      s.handed ++ s.bridge.events = s.accepted ∧
      (s.bridge.events ≠ [] → 0 < s.commits ∨ s.delivering ≠ []) := by
  have hrun : Transition.Run step (fun _ _ => True) (new : Mailbox ℕ ℕ)
      [.send 1 10, .send 2 20, .commit 1, .drain, .send 1 11, .commit 2] _ :=
    .cons trivial rfl <| .cons trivial rfl <| .cons trivial rfl <| .cons trivial rfl <|
      .cons trivial rfl <| .cons trivial rfl <| .nil _
  exact ⟨_, rfl, rfl, delivers_in_order_and_wakes hrun⟩

end Mailbox

end Delivery

end EnvoyFiles.EventBridge
