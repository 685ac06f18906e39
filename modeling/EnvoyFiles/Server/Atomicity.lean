import EnvoyFiles.Io.OpenTasks
import EnvoyFiles.Server.Isolation

/-!
# Opens between their awaits in a server

A server in which each task of `open_stat` gives up the runtime thread at its awaits, so that
commands are taken and other tasks go on between any two of them.  On a filesystem that does
not change, whatever it does is also done by a server whose opens are not interrupted.
-/

namespace EnvoyFiles

open Filter

namespace Server

/-- What the tasks of `open_stat` live on: the tasks themselves and the cache. -/
def withOpens (s : Server) (opening : List ((ℕ × OpenRequest) × OnDone)) (canonCache : CanonCache) :
    Server :=
  { s with reactor := { s.reactor with opening, canonCache } }

/-- The server with another cache. -/
def withCache (s : Server) (canonCache : CanonCache) : Server :=
  s.withOpens s.reactor.opening canonCache

/-- The file that a task has opened, with its descriptor, is registered. -/
def registered (s : Server) (id : ℕ) (onDone : OnDone) :
    Except IoError (Opened × ℕ) → Server
  | .error _ => s
  | .ok (opened, descriptor) =>
      { s with reactor := s.reactor.register id opened descriptor onDone }

/-- A task of `open_stat` ends. -/
def endOpen (s : Server) (index id : ℕ) (onDone : OnDone)
    (result : Except IoError (Opened × ℕ)) : Option Server :=
  runCallback
    ((s.registered id onDone result).withOpens (s.reactor.opening.eraseIdx index)
      s.reactor.canonCache)
    onDone (.openStat (openResult (result.map Prod.fst)))

/-- A task of `open_stat` starts or ends. -/
def Action.changesOpens : Action → Bool
  | .takeCommand => true
  | .finishOpen _ _ _ => true
  | _ => false

/-- A server whose opens are interrupted at their awaits: where the task of each entry of
`opening` waits. -/
structure Interleaved where
  server : Server
  tasks : List OpenTask

namespace Interleaved

def initial : Interleaved := ⟨Server.initial, []⟩

/-- The tasks behind the next command. -/
def spawned (commands : List (Posted OnDone)) (tasks : List OpenTask) : List OpenTask :=
  match commands with
  | .openStat _ _ _ :: _ => tasks ++ [.opening]
  | .shutdown :: _ => []
  | _ => tasks

def takeCommand (s : Interleaved) : Option Interleaved := do
  let server ← s.server.takeCommand
  return ⟨server, spawned s.server.reactor.commands s.tasks⟩

/-- A task of `open_stat` goes on to its next await or to its end. -/
def resume (s : Interleaved) (index : ℕ) (os : Os) (descriptor : ℕ) : Option Interleaved := do
  let ((id, request), onDone) ← s.server.reactor.opening[index]?
  let task ← s.tasks[index]?
  let (resumed, canonCache) := task.resume os id request descriptor s.server.reactor.canonCache
  let server := s.server.withCache canonCache
  match resumed with
  | .awaits task => return ⟨server, s.tasks.set index task⟩
  | .ends result => do
      let server ← server.endOpen index id onDone result
      return ⟨server, s.tasks.eraseIdx index⟩

inductive Action where
  | server (action : Server.Action)
  | resume (index : ℕ) (os : Os) (descriptor : ℕ)

/-- The tasks of `open_stat` end by being resumed, and not otherwise. -/
def step (crates : Crates) (cfg : Config) (s : Interleaved) : Action → Option Interleaved
  | .server .takeCommand => s.takeCommand
  | .server (.finishOpen _ _ _) => none
  | .server action => do
      let server ← Server.step crates cfg s.server action
      return ⟨server, s.tasks⟩
  | .resume index os descriptor => s.resume index os descriptor

/-- The calls of `open_stat` among some actions. -/
def opens : List Action → ℕ
  | [] => 0
  | .server (.claimId _) :: actions => opens actions + 1
  | _ :: actions => opens actions

end Interleaved

end Server

/-- What an interrupted server may meet on a site. -/
def Site.permits (site : Site) (requests : ℕ → List (Bytes × Bytes)) (s : Server.Interleaved) :
    Server.Interleaved.Action → Prop
  | .server action => site.allows requests s.server action
  | .resume _ os _ => os = site.os

namespace Server

/-! ## Steps beside the opens -/

section Opens

variable {crates : Crates} {cfg : Config} {s t : Server} {action : Action}
  {opening : List ((ℕ × OpenRequest) × OnDone)} {canonCache : CanonCache}

theorem post_withOpens (reactor : Reactor OnDone) (command : Posted OnDone) :
    Reactor.post { reactor with opening, canonCache } command =
      { reactor.post command with opening, canonCache } := by
  unfold Reactor.post
  dsimp only
  split <;> rfl

theorem runCallback_withOpens (s : Server) (onDone : OnDone) (completion : Completion) :
    (s.withOpens opening canonCache).runCallback onDone completion =
      (s.runCallback onDone completion).map (·.withOpens opening canonCache) := by
  simp only [runCallback, withOpens]
  cases s.streams[onDone.stream]? with
  | none => rfl
  | some stream =>
      cases onDone.op.onDone completion <;> rfl

theorem callback_withOpens {stream : ℕ} {action : Filter.Action} :
    (s.withOpens opening canonCache).callback crates cfg stream action =
      (s.callback crates cfg stream action).map (·.withOpens opening canonCache) := by
  simp only [callback, withOpens]
  cases s.streams[stream]? with
  | none => rfl
  | some found =>
      dsimp only [Option.bind_eq_bind, Option.bind_some]
      split
      · cases Filter.step crates cfg found.filter action <;> rfl
      · rfl

theorem submit_withOpens {stream : ℕ} :
    (s.withOpens opening canonCache).submit stream =
      (s.submit stream).map (·.withOpens opening canonCache) := by
  simp only [submit, withOpens]
  cases s.streams[stream]? with
  | none => rfl
  | some found =>
      dsimp only [Option.bind_eq_bind, Option.bind_some]
      split
      · next handle offset len seq submits _ =>
          cases s.reactor.handles.findIdx? (ownHandle stream handle) with
          | none => rfl
          | some position =>
              simp only [Option.bind_some, Reactor.read]
              cases s.reactor.handles[position]? with
              | none => rfl
              | some entry =>
                  simp only [Option.bind_eq_bind, Option.bind_some, Option.pure_def,
                    Option.map_some, post_withOpens]
      · simp only [Reactor.readDir, post_withOpens, Option.map_some]
      · rfl

/-- What neither starts nor ends an open does not see the opens. -/
theorem step_withOpens (haction : action.changesOpens = false) :
    step crates cfg (s.withOpens opening canonCache) action =
      (step crates cfg s action).map (·.withOpens opening canonCache) := by
  cases action with
  | newStream => rfl
  | callback stream action => exact callback_withOpens
  | claimId stream =>
      simp only [step, claimId, withOpens]
      cases s.streams[stream]? with
      | none => rfl
      | some found =>
          dsimp only [Option.bind_eq_bind, Option.bind_some]
          split <;> rfl
  | submit stream => exact submit_withOpens
  | sendOpen index =>
      simp only [step, sendOpen, Reactor.submitOpen, withOpens]
      cases s.reactor.submitting[index]? with
      | none => rfl
      | some entry =>
          obtain ⟨⟨id, request⟩, onDone⟩ := entry
          simp only [Option.bind_eq_bind, Option.bind_some, Option.pure_def, Option.map_some]
          exact congrArg (fun reactor => some (Server.mk reactor s.streams)) (post_withOpens
            { s.reactor with submitting := s.reactor.submitting.eraseIdx index } _)
  | destroy stream =>
      simp only [step, destroy, withOpens]
      cases s.streams[stream]? with
      | none => rfl
      | some found =>
          dsimp only [Option.bind_eq_bind, Option.bind_some]
          split <;> rfl
  | dropInner index =>
      simp only [step, dropInner, Reactor.dropInner, withOpens]
      cases s.reactor.dropping[index]? with
      | none => rfl
      | some inner =>
          simp only [Option.bind_eq_bind, Option.bind_some, Option.pure_def, Option.map_some]
          split
          · exact congrArg (fun reactor => some (Server.mk reactor s.streams)) (post_withOpens
              { s.reactor with dropping := s.reactor.dropping.eraseIdx index } _)
          · rfl
  | shutdown =>
      exact congrArg (fun reactor => some (Server.mk reactor s.streams))
        (post_withOpens s.reactor .shutdown)
  | takeCommand => cases haction
  | finishOpen index os descriptor => cases haction
  | finishRead index reply =>
      simp only [step, finishRead, Reactor.finishRead, withOpens]
      cases s.reactor.reading[index]? with
      | none => rfl
      | some entry =>
          simp only [Option.bind_eq_bind, Option.bind_some, Option.pure_def]
          exact runCallback_withOpens
            ⟨{ s.reactor with reading := s.reactor.reading.eraseIdx index }, s.streams⟩ _ _
  | finishReadDir index result =>
      simp only [step, finishReadDir, Reactor.finishReadDir, withOpens]
      cases s.reactor.listing[index]? with
      | none => rfl
      | some entry =>
          simp only [Option.bind_eq_bind, Option.bind_some, Option.pure_def]
          exact runCallback_withOpens
            ⟨{ s.reactor with listing := s.reactor.listing.eraseIdx index }, s.streams⟩ _ _

/-- So it leaves them as they are. -/
theorem step_opens (haction : action.changesOpens = false)
    (h : step crates cfg s action = some t) :
    t.reactor.opening = s.reactor.opening ∧ t.reactor.canonCache = s.reactor.canonCache := by
  have hsame : step crates cfg s action = (step crates cfg s action).map
      (·.withOpens s.reactor.opening s.reactor.canonCache) :=
    step_withOpens haction
  rw [h] at hsame
  have ht : t = t.withOpens s.reactor.opening s.reactor.canonCache := Option.some.inj hsame
  rw [ht]
  exact ⟨rfl, rfl⟩

/-- A command is taken with any cache. -/
theorem takeCommand_withCache :
    (s.withCache canonCache).takeCommand = s.takeCommand.map (·.withCache canonCache) := by
  obtain ⟨⟨nextId, submitting, commands, opening, reading, listing, files, cache, handles,
    dropping, running⟩, streams⟩ := s
  cases running with
  | false => rfl
  | true =>
      cases commands with
      | nil => rfl
      | cons command commands => cases command <;> rfl

theorem takeCommand_canonCache (h : s.takeCommand = some t) :
    t.reactor.canonCache = s.reactor.canonCache := by
  have hsame : s.takeCommand = s.takeCommand.map (·.withCache s.reactor.canonCache) :=
    takeCommand_withCache
  rw [h] at hsame
  have ht : t = t.withCache s.reactor.canonCache := Option.some.inj hsame
  rw [ht]
  rfl

/-- The tasks behind a command are those that have been there, a new one, or none. -/
theorem takeCommand_tasks {agrees : (ℕ × OpenRequest) × OnDone → OpenTask → Prop}
    {tasks : List OpenTask} (hnew : ∀ entry, agrees entry .opening)
    (h : s.takeCommand = some t) (htasks : List.Forall₂ agrees s.reactor.opening tasks) :
    List.Forall₂ agrees t.reactor.opening (Interleaved.spawned s.reactor.commands tasks) := by
  obtain ⟨⟨nextId, submitting, commands, opening, reading, listing, files, cache, handles,
    dropping, running⟩, streams⟩ := s
  cases running with
  | false => cases h
  | true =>
      cases commands with
      | nil => cases h
      | cons command commands =>
          cases command with
          | openStat id request onDone =>
              cases h
              exact List.rel_append htasks (.cons (hnew _) .nil)
          | shutdown =>
              cases h
              exact .nil
          | read handle offset len onDone =>
              cases h
              exact htasks
          | readDir path onDone =>
              cases h
              exact htasks
          | close handle =>
              cases h
              exact htasks

/-! ## The ends of opens -/

variable {os : Os} {id index descriptor : ℕ} {request : OpenRequest} {onDone : OnDone}
  {result : Except IoError (Opened × ℕ)}

/-- An uninterrupted open changes the cache and ends. -/
theorem finishOpen_eq (hentry : s.reactor.opening[index]? = some ((id, request), onDone)) :
    s.finishOpen index os descriptor =
      (s.withCache (Engine.openStat os id request s.reactor.engineState).2.canonCache).endOpen index
        id onDone ((Engine.openStat os id request s.reactor.engineState).1.map
          fun opened => (opened, descriptor)) := by
  simp only [finishOpen, Reactor.finishOpen]
  rw [hentry]
  simp only [Option.bind_eq_bind, Option.bind_some]
  generalize Engine.openStat os id request s.reactor.engineState = found
  obtain ⟨result, state⟩ := found
  cases result <;> rfl

/-- What is registered does not see the opens. -/
theorem registered_withOpens :
    ((s.withOpens opening canonCache).registered id onDone result) =
      (s.registered id onDone result).withOpens opening canonCache := by
  cases result <;> rfl

/-- The end of a task with another cache. -/
theorem endOpen_withCache :
    (s.withCache canonCache).endOpen index id onDone result =
      (s.endOpen index id onDone result).map (·.withCache canonCache) := by
  rw [endOpen, endOpen, withCache, registered_withOpens]
  simp only [runCallback_withOpens, Option.map_map]
  rfl

theorem endOpen_opening (h : s.endOpen index id onDone result = some t) :
    t.reactor.opening = s.reactor.opening.eraseIdx index ∧
      t.reactor.canonCache = s.reactor.canonCache := by
  rw [endOpen, runCallback_withOpens] at h
  obtain ⟨u, -, rfl⟩ := Option.map_eq_some_iff.mp h
  exact ⟨rfl, rfl⟩

end Opens

/-! ## Uninterrupted opens -/

section Lists

variable {α β : Type*} {R : α → β → Prop} {items : List α} {others : List β} {index : ℕ}
  {item : α} {other : β}

theorem forall₂_getElem? (h : List.Forall₂ R items others) (hitem : items[index]? = some item)
    (hother : others[index]? = some other) : R item other := by
  induction h generalizing index with
  | nil => cases hitem
  | cons hrelated _ ih =>
      cases index with
      | zero =>
          cases hitem
          cases hother
          exact hrelated
      | succ index => exact ih hitem hother

theorem forall₂_eraseIdx (h : List.Forall₂ R items others) :
    List.Forall₂ R (items.eraseIdx index) (others.eraseIdx index) := by
  rw [List.eraseIdx_eq_take_drop_succ, List.eraseIdx_eq_take_drop_succ]
  exact List.rel_append (List.forall₂_take index h) (List.forall₂_drop (index + 1) h)

theorem forall₂_set (h : List.Forall₂ R items others) (hitem : items[index]? = some item)
    (hrelated : R item other) : List.Forall₂ R items (others.set index other) := by
  induction h generalizing index with
  | nil => cases hitem
  | cons hfirst hrest ih =>
      cases index with
      | zero =>
          cases hitem
          exact .cons hrelated hrest
      | succ index => exact .cons hfirst (ih hitem)

end Lists

/-- What the server with uninterrupted opens does for an action: the same, or where a task goes
on, nothing before its end and the whole open then. -/
inductive Stands : Interleaved.Action → List Action → Prop where
  | same (action : Action) : Stands (.server action) [action]
  | waits (index : ℕ) (os : Os) (descriptor : ℕ) : Stands (.resume index os descriptor) []
  | ends (index : ℕ) (os : Os) (descriptor given : ℕ) :
      Stands (.resume index os descriptor) [.finishOpen index os given]

/-- A task has found what the filesystem has. -/
def TaskAgrees (os : Os) (entry : (ℕ × OpenRequest) × OnDone) (task : OpenTask) : Prop :=
  task.Agrees os entry.1.2

/-- The two servers differ in their caches, both of which are sound, and every task has found
what the filesystem has. -/
structure Follows (site : Site) (s : Interleaved) (t : Server) : Prop where
  same : t = s.server.withCache t.reactor.canonCache
  cache : Engine.CacheSound site.os s.server.reactor.canonCache
  followed : Engine.CacheSound site.os t.reactor.canonCache
  tasks : List.Forall₂ (TaskAgrees site.os) s.server.reactor.opening s.tasks

section Simulation

variable {crates : Crates} {cfg : Config} {site : Site} {requests : ℕ → List (Bytes × Bytes)}
  {s s' : Interleaved} {t : Server}

theorem follows_initial : Follows site Interleaved.initial initial where
  same := rfl
  cache _ hentry := absurd hentry List.not_mem_nil
  followed _ hentry := absurd hentry List.not_mem_nil
  tasks := .nil

/-- What a site allows does not depend on the cache. -/
theorem allows_withCache {canonCache : CanonCache} {action : Action} {s : Server}
    (h : site.allows requests s action) : site.allows requests (s.withCache canonCache) action := by
  cases action <;> exact h

/-- A step beside the opens. -/
theorem Follows.beside (h : Follows site s t) {action : Action}
    (haction : action.changesOpens = false) {server : Server}
    (hstep : step crates cfg s.server action = some server) :
    ∃ t', step crates cfg t action = some t' ∧ Follows site ⟨server, s.tasks⟩ t' := by
  obtain ⟨hopening, hcache⟩ := step_opens haction hstep
  have hfollow : step crates cfg t action = some (server.withCache t.reactor.canonCache) := by
    rw [h.same, withCache, step_withOpens haction, hstep, withCache, hopening]
    rfl
  refine ⟨_, hfollow, ⟨rfl, ?_, h.followed, ?_⟩⟩
  · rw [hcache]
    exact h.cache
  · rw [hopening]
    exact h.tasks

theorem Follows.takeCommand (h : Follows site s t) (hstep : s.takeCommand = some s') :
    ∃ t', t.takeCommand = some t' ∧ Follows site s' t' := by
  obtain ⟨server, htake, hs⟩ := Option.bind_eq_some_iff.mp hstep
  cases hs
  have hfollow : t.takeCommand = some (server.withCache t.reactor.canonCache) := by
    rw [h.same, takeCommand_withCache, htake]
    rfl
  refine ⟨_, hfollow, ⟨rfl, ?_, h.followed, ?_⟩⟩
  · rw [takeCommand_canonCache htake]
    exact h.cache
  · exact takeCommand_tasks (fun _ => trivial) htake h.tasks

/-- A task that goes on is followed by nothing or by its whole open. -/
theorem Follows.resume (h : Follows site s t) {index descriptor : ℕ}
    (hstep : s.resume index site.os descriptor = some s') :
    Follows site s' t ∨ ∃ given t', t.finishOpen index site.os given = some t' ∧
      Follows site s' t' := by
  obtain ⟨⟨⟨id, request⟩, onDone⟩, hentry, hstep⟩ := Option.bind_eq_some_iff.mp hstep
  obtain ⟨task, htask, hstep⟩ := Option.bind_eq_some_iff.mp hstep
  have hfound : TaskAgrees site.os ((id, request), onDone) task :=
    forall₂_getElem? h.tasks hentry htask
  have hsound := @OpenTask.resume_sound site.os id descriptor request _ task h.cache
  have hagrees := @OpenTask.resume_agrees site.os id descriptor request _ task h.cache hfound
  dsimp only at hstep
  generalize task.resume site.os id request descriptor s.server.reactor.canonCache = resumed
    at hsound hagrees hstep
  obtain ⟨resumed, canonCache⟩ := resumed
  cases resumed with
  | awaits next =>
      left
      cases hstep
      exact ⟨h.same, hsound, h.followed, forall₂_set h.tasks hentry hagrees⟩
  | ends result =>
      right
      obtain ⟨server, hend, hs⟩ := Option.bind_eq_some_iff.mp hstep
      cases hs
      have hopening := (endOpen_opening hend).1
      rw [endOpen_withCache] at hend
      obtain ⟨u, hended, rfl⟩ := Option.map_eq_some_iff.mp hend
      -- the uninterrupted open has the same result
      have hsame (cache : CanonCache) : t.withCache cache = s.server.withCache cache := by
        rw [h.same]
        rfl
      have hentry' : t.reactor.opening[index]? = some ((id, request), onDone) := by
        rw [h.same]
        exact hentry
      obtain ⟨given, hgiven⟩ : ∃ given, (result.map Prod.fst).map
          (fun opened => (opened, given)) = result := by
        cases result with
        | error error => exact ⟨0, rfl⟩
        | ok opened => exact ⟨opened.2, rfl⟩
      have hresult := hagrees t.reactor.engineState h.followed
      refine ⟨given,
        u.withCache (Engine.openStat site.os id request t.reactor.engineState).2.canonCache,
        ?_, ⟨rfl, hsound, Engine.openStat_sound h.followed, ?_⟩⟩
      · rw [finishOpen_eq hentry', hresult, hgiven, hsame, endOpen_withCache, hended]
        rfl
      · rw [hopening]
        exact forall₂_eraseIdx h.tasks

/-- Whatever is done is followed. -/
theorem follows_step (h : Follows site s t) {action : Interleaved.Action}
    (hok : site.permits requests s action) (hstep : s.step crates cfg action = some s') :
    ∃ part t', Stands action part ∧
      ServerRun crates cfg (site.allows requests) t part t' ∧ Follows site s' t' := by
  cases action with
  | resume index os descriptor =>
      obtain rfl : os = site.os := hok
      rcases h.resume hstep with hwaits | ⟨given, t', hfinish, hends⟩
      · exact ⟨[], t, .waits _ _ _, .nil t, hwaits⟩
      · exact ⟨[.finishOpen index site.os given], t', .ends _ _ _ _, .single rfl hfinish, hends⟩
  | server action =>
      have hallowed : site.allows requests t action := by
        rw [h.same]
        exact allows_withCache hok
      cases hchanges : action.changesOpens with
      | true =>
          cases action with
          | takeCommand =>
              obtain ⟨t', htake, hfollows⟩ := h.takeCommand hstep
              exact ⟨[.takeCommand], t', .same _, .single hallowed htake, hfollows⟩
          | finishOpen index os descriptor => cases hstep
          | _ => cases hchanges
      | false =>
          have hplain : s.step crates cfg (.server action) =
              (Server.step crates cfg s.server action).bind fun server =>
                some ⟨server, s.tasks⟩ := by
            cases action with
            | takeCommand => cases hchanges
            | finishOpen index os descriptor => cases hchanges
            | _ => rfl
          rw [hplain] at hstep
          obtain ⟨server, hserver, hs⟩ := Option.bind_eq_some_iff.mp hstep
          cases hs
          obtain ⟨t', hfollow, hfollows⟩ := h.beside hchanges hserver
          exact ⟨[action], t', .same _, .single hallowed hfollow, hfollows⟩

theorem opens_append (before after : List Action) :
    opens (before ++ after) = opens before + opens after := by
  induction before with
  | nil => exact (Nat.zero_add _).symm
  | cons action before ih =>
      rw [List.cons_append]
      cases action with
      | claimId stream =>
          simp only [opens]
          omega
      | _ => exact ih

/-- No call of `open_stat` is added or left out. -/
theorem opens_parts {actions : List Interleaved.Action} {parts : List (List Action)}
    (h : List.Forall₂ Stands actions parts) :
    opens parts.flatten = Interleaved.opens actions := by
  induction h with
  | nil => rfl
  | cons hstands _ ih =>
      rw [List.flatten_cons, opens_append, ih]
      cases hstands with
      | same action =>
          cases action with
          | claimId stream => exact Nat.add_comm _ _
          | _ => exact Nat.zero_add _
      | waits index os descriptor => exact Nat.zero_add _
      | ends index os descriptor given => exact Nat.zero_add _

/-- On a filesystem that does not change, opens are atomic: whatever a server does whose opens are
interrupted at every await, a server does whose opens are not, action by action, with the same
streams, files and handles; their caches alone may differ. -/
theorem opens_are_atomic {actions : List Interleaved.Action}
    (hrun : Transition.Run (Interleaved.step crates cfg) (site.permits requests)
      Interleaved.initial actions s) :
    ∃ parts t, List.Forall₂ Stands actions parts ∧
      opens parts.flatten = Interleaved.opens actions ∧
      ServerRun crates cfg (site.allows requests) initial parts.flatten t ∧
      t = s.server.withCache t.reactor.canonCache := by
  obtain ⟨parts, t, hstands, hfollow, hfollows⟩ := hrun.simulates_parts
    (R := Follows site) follows_initial fun _ _ _ _ h hok hstep => follows_step h hok hstep
  exact ⟨parts, t, hstands, opens_parts hstands, hfollow, hfollows.same⟩

end Simulation

/-! ### Witness -/

/-- Two streams whose opens go on in turn. -/
def interruptedActions : List Interleaved.Action :=
  [.server .newStream, .server .newStream,
    .server (.callback 0 (.requestHeaders (getHeaders "/a") [])),
    .server (.callback 1 (.requestHeaders (getHeaders "/a") [])),
    .server (.claimId 1), .server (.claimId 0), .server (.sendOpen 1), .server (.sendOpen 0),
    .server .takeCommand, .resume 0 smallFileOs 7, .server .takeCommand, .resume 1 smallFileOs 8,
    .resume 1 smallFileOs 9, .resume 0 smallFileOs 9, .resume 0 smallFileOs 9,
    .server (.callback 0 .commit), .server (.callback 0 (.scheduled [])),
    .resume 0 smallFileOs 9]

theorem opens_are_atomic_interrupted :
    ∃ s parts t, interruptedActions.foldlM
        (Interleaved.step Crates.plain (Config.defaults ⟨"/srv"⟩)) Interleaved.initial = some s ∧
      List.Forall₂ Stands interruptedActions parts ∧ opens parts.flatten = 2 ∧
      ServerRun Crates.plain (Config.defaults ⟨"/srv"⟩)
        (smallSite.allows fun _ => getHeaders "/a") initial parts.flatten t ∧
      t = s.server.withCache t.reactor.canonCache := by
  have hsome : (interruptedActions.foldlM
      (Interleaved.step Crates.plain (Config.defaults ⟨"/srv"⟩)) Interleaved.initial).isSome =
        true := by
    decide
  obtain ⟨s, hs⟩ := Option.isSome_iff_exists.mp hsome
  have hrun : Transition.Run (Interleaved.step Crates.plain (Config.defaults ⟨"/srv"⟩))
      (fun _ _ => True) Interleaved.initial interruptedActions s :=
    Transition.Run.of_foldlM (fun _ _ => trivial) hs
  have hallowed : Transition.Run (Interleaved.step Crates.plain (Config.defaults ⟨"/srv"⟩))
      (smallSite.permits fun _ => getHeaders "/a") Interleaved.initial interruptedActions s := by
    refine hrun.mono_of_mem ?_
    intro u action haction _
    simp only [interruptedActions, List.mem_cons, List.not_mem_nil, or_false] at haction
    rcases haction with rfl | rfl | rfl | rfl | rfl | rfl | rfl | rfl | rfl | rfl | rfl | rfl |
      rfl | rfl | rfl | rfl | rfl | rfl
    all_goals first | rfl | trivial
  obtain ⟨parts, t, hstands, hopens, hfollow, hsame⟩ := opens_are_atomic hallowed
  exact ⟨s, parts, t, hs, hstands, hopens, hfollow, hsame⟩

end Server

end EnvoyFiles
