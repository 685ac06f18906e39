import EnvoyFiles.Io.FileTable
import EnvoyFiles.Io.PositionalReads

/-!
# The engine with its callbacks

The model of `run_reactor` with what its commands carry: the callback of each operation,
which runs with the result of its task, and `Shutdown`.  `κ` stands for the callbacks.
Forgetting them gives back the engine of `CompioEngine`, so the file table is exact here
too, and every read task holds the file of the handle it was sent through.
-/

namespace EnvoyFiles

/-- `Command`. -/
inductive Posted (κ : Type) where
  | openStat (id : ℕ) (request : OpenRequest) (onDone : κ)
  | read (handle : HandleInner) (offset len : ℕ) (onDone : κ)
  | readDir (path : PathBuf) (onDone : κ)
  | close (handle : HandleInner)
  | shutdown

/-- `CompioEngine` and the locals of `run_reactor`. -/
structure Reactor (κ : Type) where
  nextId : ℕ
  /-- Calls of `open_stat` that have drawn an id and not sent their command. -/
  submitting : List ((ℕ × OpenRequest) × κ)
  commands : List (Posted κ)
  /-- Spawned tasks. -/
  opening : List ((ℕ × OpenRequest) × κ)
  reading : List (ReadTask × κ)
  listing : List (PathBuf × κ)
  files : List (ℕ × File)
  canonCache : CanonCache
  /-- The handles that are alive, each with the callback that has got it. -/
  handles : List (HandleInner × κ)
  /-- Handles whose `Drop` is still to run. -/
  dropping : List HandleInner
  /-- Whether the loop of `run_reactor` goes on. -/
  running : Bool

namespace Reactor

variable {κ : Type}

def initial : Reactor κ where
  nextId := 1
  submitting := []
  commands := []
  opening := []
  reading := []
  listing := []
  files := []
  canonCache := []
  handles := []
  dropping := []
  running := true

/-! ## The worker threads -/

/-- `try_send`, which fails once the runtime thread has ended; the command and its callback
are dropped then. -/
def post (s : Reactor κ) (command : Posted κ) : Reactor κ :=
  if s.running then { s with commands := s.commands ++ [command] } else s

/-- The first half of `open_stat`, which draws an id. -/
def claimId (s : Reactor κ) (request : OpenRequest) (onDone : κ) : Reactor κ :=
  { s with
    nextId := (s.nextId + 1) % CompioEngine.idRange
    submitting := s.submitting ++ [((s.nextId, request), onDone)] }

/-- The second half of `open_stat`. -/
def submitOpen (s : Reactor κ) (index : ℕ) : Option (Reactor κ) := do
  let ((id, request), onDone) ← s.submitting[index]?
  return post { s with submitting := s.submitting.eraseIdx index }
    (.openStat id request onDone)

/-- `read` through a handle that is alive. -/
def read (s : Reactor κ) (index offset len : ℕ) (onDone : κ) : Option (Reactor κ) := do
  let (inner, _) ← s.handles[index]?
  return s.post (.read inner offset len onDone)

def readDir (s : Reactor κ) (path : PathBuf) (onDone : κ) : Reactor κ :=
  s.post (.readDir path onDone)

/-- The handles that nobody holds any more are left to their `Drop`. -/
def release (s : Reactor κ) (held : HandleInner × κ → Bool) : Reactor κ :=
  { s with
    handles := s.handles.filter held
    dropping := s.dropping ++ (s.handles.filter fun entry => !held entry).map Prod.fst }

/-- `HandleInner::drop`. -/
def dropInner (s : Reactor κ) (index : ℕ) : Option (Reactor κ) := do
  let inner ← s.dropping[index]?
  let s' := { s with dropping := s.dropping.eraseIdx index }
  return if inner.id ≠ 0 then s'.post (.close inner) else s'

/-- The command that `shutdown` sends. -/
def shutdown (s : Reactor κ) : Reactor κ :=
  s.post .shutdown

/-- A command that is posted changes nothing but the channel. -/
theorem post_eq (s : Reactor κ) (command : Posted κ) :
    ∃ commands, s.post command = { s with commands } := by
  rw [post]
  split
  · exact ⟨_, rfl⟩
  · exact ⟨s.commands, rfl⟩

/-! ## The runtime thread -/

/-- The loop of `run_reactor` has ended.  The runtime drops its tasks with their callbacks,
and the files close with the table; what is left in the channel is never taken. -/
def stop (s : Reactor κ) : Reactor κ :=
  { s with
    commands := []
    opening := []
    reading := []
    listing := []
    files := []
    running := false }

/-- One turn of the loop of `run_reactor`. -/
def takeCommand (s : Reactor κ) : Option (Reactor κ) :=
  if s.running then
    match s.commands with
    | [] => none
    | .shutdown :: _ => some s.stop
    | .close handle :: commands =>
        some { s with commands, files := removeEntry handle.id s.files }
    | .openStat id request onDone :: commands =>
        some { s with commands, opening := s.opening ++ [((id, request), onDone)] }
    | .read handle offset len onDone :: commands =>
        some { s with
          commands
          reading := s.reading ++
            [(⟨handle, s.files.lookup handle.id, offset, len⟩, onDone)] }
    | .readDir path onDone :: commands =>
        some { s with commands, listing := s.listing ++ [(path, onDone)] }
  else
    none

/-- What `open_stat` is called with, the files known by their locations. -/
def engineState (s : Reactor κ) : EngineState where
  files := s.files.map fun entry => (entry.1, entry.2.location)
  canonCache := s.canonCache

/-- The end of an `open_stat` that has opened its file. -/
def register (s : Reactor κ) (id : ℕ) (opened : Opened) (descriptor : ℕ) (onDone : κ) :
    Reactor κ :=
  let file : File := ⟨descriptor, opened.file⟩
  { s with
    files := if opened.inert then s.files else insertEntry id file s.files
    handles := s.handles ++ [(⟨opened.handle.id, file⟩, onDone)] }

/-- A task that opens a file ends: the callback, and what it is called with. -/
def finishOpen (s : Reactor κ) (index : ℕ) (os : Os) (descriptor : ℕ) :
    Option (Reactor κ × κ × Except IoError Opened) := do
  let ((id, request), onDone) ← s.opening[index]?
  let (result, state) := Engine.openStat os id request s.engineState
  let s' := { s with
    opening := s.opening.eraseIdx index
    canonCache := state.canonCache }
  match result with
  | .error _ => return (s', onDone, result)
  | .ok opened => return (s'.register id opened descriptor onDone, onDone, result)

/-- What `read_at` returns to a task, where `reply` gives the reply to each of its positional
reads. -/
def readResult (task : ReadTask) (reply : ℕ → ℕ → ℕ → Except IoError Bytes) : ReadResult :=
  match task.file with
  | none => .error ⟨.notFound, none⟩
  | some _ => (Engine.readAtCalls reply task.offset task.len).2

/-- A task that reads a file ends. -/
def finishRead (s : Reactor κ) (index : ℕ) (reply : ℕ → ℕ → ℕ → Except IoError Bytes) :
    Option (Reactor κ × κ × ReadResult) := do
  let (task, onDone) ← s.reading[index]?
  return ({ s with reading := s.reading.eraseIdx index }, onDone, readResult task reply)

/-- A task that reads a directory ends, with its entries or an error. -/
def finishReadDir (s : Reactor κ) (index : ℕ) (result : ReadDirResult) :
    Option (Reactor κ × κ × ReadDirResult) := do
  let (_, onDone) ← s.listing[index]?
  return ({ s with listing := s.listing.eraseIdx index }, onDone, result)

/-! ## The engine without callbacks -/

end Reactor

/-- A command without its callback; the engine of `CompioEngine` is not shut down. -/
def Posted.erase {κ : Type} : Posted κ → Option Command
  | .openStat id request _ => some (.openStat id request)
  | .read handle offset len _ => some (.read handle offset len)
  | .readDir path _ => some (.readDir path)
  | .close handle => some (.close handle)
  | .shutdown => none

namespace Reactor

variable {κ : Type}

/-- The engine without its callbacks. -/
def erase (s : Reactor κ) : CompioEngine where
  nextId := s.nextId
  submitting := s.submitting.map Prod.fst
  commands := s.commands.filterMap Posted.erase
  opening := s.opening.map Prod.fst
  reading := s.reading.map Prod.fst
  listing := s.listing.map Prod.fst
  files := s.files
  canonCache := s.canonCache
  handles := s.handles.map fun entry => ⟨entry.1, 1⟩
  dropping := s.dropping

section Erasure

variable {s t : Reactor κ} {index offset len : ℕ} {request : OpenRequest} {onDone : κ}

theorem map_eraseIdx_fst {α : Type} (items : List (α × κ)) (index : ℕ) :
    (items.eraseIdx index).map Prod.fst = (items.map Prod.fst).eraseIdx index :=
  (List.eraseIdx_map Prod.fst items index).symm

theorem getElem?_fst {α : Type} {items : List (α × κ)} {item : α × κ}
    (h : items[index]? = some item) : (items.map Prod.fst)[index]? = some item.1 := by
  rw [List.getElem?_map, h]
  rfl

theorem post_erase {command : Posted κ} {erased : Command} (hrunning : s.running = true)
    (hcommand : command.erase = some erased) : (s.post command).erase = s.erase.send erased := by
  rw [post, if_pos hrunning]
  unfold erase CompioEngine.send
  dsimp only
  rw [List.filterMap_append, List.filterMap_cons_some hcommand]
  rfl

theorem claimId_erase (s : Reactor κ) (request : OpenRequest) (onDone : κ) :
    (s.claimId request onDone).erase = s.erase.claimId request := by
  unfold erase claimId CompioEngine.claimId
  dsimp only
  rw [List.map_append]
  rfl

theorem submitOpen_erase (hrunning : s.running = true) (h : s.submitOpen index = some t) :
    s.erase.submitOpen index = some t.erase := by
  obtain ⟨⟨⟨id, request⟩, onDone⟩, hitem, hnext⟩ := Option.bind_eq_some_iff.mp h
  cases hnext
  have hposted := @post_erase κ { s with submitting := s.submitting.eraseIdx index }
    (.openStat id request onDone) _ hrunning rfl
  rw [CompioEngine.submitOpen]
  rw [show s.erase.submitting[index]? = some (id, request) from getElem?_fst hitem]
  rw [hposted]
  unfold erase
  dsimp only
  rw [map_eraseIdx_fst]
  rfl

theorem read_erase (hrunning : s.running = true) (h : s.read index offset len onDone = some t) :
    s.erase.read index offset len = some t.erase := by
  obtain ⟨⟨inner, holder⟩, hitem, hnext⟩ := Option.bind_eq_some_iff.mp h
  cases hnext
  have hshared : s.erase.handles[index]? = some ⟨inner, 1⟩ := by
    unfold erase
    dsimp only
    rw [List.getElem?_map, hitem]
    rfl
  rw [CompioEngine.read]
  rw [hshared]
  rw [post_erase hrunning rfl]
  rfl

theorem readDir_erase (hrunning : s.running = true) (path : PathBuf) :
    (s.readDir path onDone).erase = s.erase.readDir path :=
  post_erase hrunning rfl

theorem dropInner_erase (hrunning : s.running = true) (h : s.dropInner index = some t) :
    s.erase.dropInner index = some t.erase := by
  obtain ⟨inner, hitem, hnext⟩ := Option.bind_eq_some_iff.mp h
  have hnext := Option.some.inj hnext
  rw [CompioEngine.dropInner]
  rw [show s.erase.dropping[index]? = some inner from hitem]
  rw [← hnext]
  by_cases hid : inner.id ≠ 0
  · have hposted := @post_erase κ { s with dropping := s.dropping.eraseIdx index }
      (.close inner) _ hrunning rfl
    rw [if_pos hid, hposted]
    exact congrArg some (if_pos hid)
  · rw [if_neg hid]
    exact congrArg some (if_neg hid)

theorem shutdown_erase (s : Reactor κ) : s.shutdown.erase = s.erase := by
  rw [shutdown, post]
  split
  · unfold erase
    dsimp only
    rw [List.filterMap_append]
    exact congrArg (CompioEngine.mk _ _ · _ _ _ _ _ _ _) (List.append_nil _)
  · rfl

/-- Unless it stops, the runtime thread does what it does without callbacks. -/
theorem takeCommand_erase (h : s.takeCommand = some t) (hrunning : t.running = true) :
    s.erase.takeCommand = some t.erase := by
  rw [takeCommand] at h
  split at h
  · split at h
    · cases h
    · cases h
      cases hrunning
    all_goals
      next hcommands =>
        cases h
        rw [CompioEngine.takeCommand]
        unfold erase
        dsimp only
        rw [hcommands]
        simp only [List.filterMap_cons, Posted.erase, List.map_append, List.map_cons,
          List.map_nil]
  · cases h

theorem register_erase (s : Reactor κ) (id : ℕ) (opened : Opened) (descriptor : ℕ) (onDone : κ) :
    (s.register id opened descriptor onDone).erase = s.erase.register id opened descriptor := by
  unfold erase register CompioEngine.register
  dsimp only
  rw [List.map_append]
  rfl

/-- What the end of an open comes from and leads to. -/
theorem finishOpen_cases {os : Os} {descriptor : ℕ} {result : Except IoError Opened}
    (h : s.finishOpen index os descriptor = some (t, onDone, result)) :
    ∃ id request state, s.opening[index]? = some ((id, request), onDone) ∧
      Engine.openStat os id request s.engineState = (result, state) ∧
      match result with
      | .error _ => t = { s with
          opening := s.opening.eraseIdx index, canonCache := state.canonCache }
      | .ok opened => t = register { s with
          opening := s.opening.eraseIdx index, canonCache := state.canonCache }
            id opened descriptor onDone := by
  obtain ⟨⟨⟨id, request⟩, onDone'⟩, hitem, hnext⟩ := Option.bind_eq_some_iff.mp h
  dsimp only at hnext
  cases hopen : Engine.openStat os id request s.engineState with
  | mk result' state =>
      rw [hopen] at hnext
      cases result' with
      | error error =>
          cases hnext
          exact ⟨id, request, state, hitem, hopen, rfl⟩
      | ok opened =>
          cases hnext
          exact ⟨id, request, state, hitem, hopen, rfl⟩

theorem finishOpen_erase {os : Os} {descriptor : ℕ} {result : Except IoError Opened}
    (h : s.finishOpen index os descriptor = some (t, onDone, result)) :
    s.erase.finishOpen index os descriptor = some t.erase := by
  obtain ⟨id, request, state, hitem, hopen, hnext⟩ := finishOpen_cases h
  rw [CompioEngine.finishOpen]
  rw [show s.erase.opening[index]? = some (id, request) from getElem?_fst hitem]
  rw [Option.bind_eq_bind, Option.bind_some]
  dsimp only
  rw [show s.erase.engineState = s.engineState from rfl, hopen]
  cases result with
  | error error =>
      dsimp only at hnext
      subst hnext
      unfold erase
      dsimp only
      rw [map_eraseIdx_fst]
      rfl
  | ok opened =>
      dsimp only at hnext
      subst hnext
      rw [register_erase]
      unfold erase
      dsimp only
      rw [map_eraseIdx_fst]
      rfl

theorem finishRead_erase {reply : ℕ → ℕ → ℕ → Except IoError Bytes} {result : ReadResult}
    (h : s.finishRead index reply = some (t, onDone, result)) :
    s.erase.finishRead index = some t.erase := by
  obtain ⟨⟨task, onDone'⟩, hitem, hnext⟩ := Option.bind_eq_some_iff.mp h
  cases hnext
  rw [CompioEngine.finishRead]
  rw [show s.erase.reading[index]? = some task from getElem?_fst hitem]
  unfold erase
  dsimp only
  rw [map_eraseIdx_fst]
  rfl

theorem finishReadDir_erase {result result' : ReadDirResult}
    (h : s.finishReadDir index result = some (t, onDone, result')) :
    s.erase.finishReadDir index = some t.erase := by
  obtain ⟨⟨path, onDone'⟩, hitem, hnext⟩ := Option.bind_eq_some_iff.mp h
  cases hnext
  rw [CompioEngine.finishReadDir]
  rw [show s.erase.listing[index]? = some path from getElem?_fst hitem]
  unfold erase
  dsimp only
  rw [map_eraseIdx_fst]
  rfl

/-- Handles that are dropped one after another, from those behind `kept` on. -/
theorem dropHandles_run (held : HandleInner × κ → Bool) (handles kept : List (HandleInner × κ))
    (s : CompioEngine)
    (hhandles : s.handles = (kept ++ handles).map fun entry => ⟨entry.1, 1⟩) :
    ∃ actions, CompioEngine.opens actions = 0 ∧ CompioEngine.EngineRun s actions
      { s with
        handles := (kept ++ handles.filter held).map fun entry => ⟨entry.1, 1⟩
        dropping := s.dropping ++
          (handles.filter fun entry => !held entry).map Prod.fst } := by
  induction handles generalizing kept s with
  | nil =>
      refine ⟨[], rfl, ?_⟩
      simp only [List.filter_nil, List.map_nil, List.append_nil] at hhandles ⊢
      rw [← hhandles]
      exact .nil s
  | cons entry handles ih =>
      cases hheld : held entry with
      | true =>
          obtain ⟨actions, hopens, hrun⟩ := ih (kept ++ [entry]) s (by
            rw [hhandles, List.append_assoc]
            rfl)
          refine ⟨actions, hopens, ?_⟩
          rw [List.filter_cons_of_pos hheld, List.filter_cons_of_neg (by simp [hheld])]
          rw [List.append_assoc] at hrun
          exact hrun
      | false =>
          have hitem : s.handles[kept.length]? = some ⟨entry.1, 1⟩ := by
            rw [hhandles, List.getElem?_map, List.getElem?_append_right le_rfl, Nat.sub_self]
            rfl
          have hrest : s.handles.eraseIdx kept.length =
              (kept ++ handles).map fun entry => ⟨entry.1, 1⟩ := by
            rw [hhandles, List.eraseIdx_map, List.eraseIdx_append_of_length_le le_rfl,
              Nat.sub_self]
            rfl
          have hdrop : s.dropHandle kept.length = some { s with
              handles := (kept ++ handles).map fun entry => ⟨entry.1, 1⟩
              dropping := s.dropping ++ [entry.1] } := by
            rw [CompioEngine.dropHandle]
            rw [hitem]
            rw [← hrest]
            exact congrArg some (if_pos le_rfl)
          obtain ⟨actions, hopens, hrun⟩ := ih kept { s with
              handles := (kept ++ handles).map fun entry => ⟨entry.1, 1⟩
              dropping := s.dropping ++ [entry.1] } rfl
          refine ⟨.dropHandle kept.length :: actions, hopens, .cons trivial hdrop ?_⟩
          rw [List.filter_cons_of_neg (by simp [hheld]),
            List.filter_cons_of_pos (by simp [hheld]), List.map_cons]
          dsimp only at hrun
          rw [List.append_assoc] at hrun
          exact hrun

theorem release_erase (s : Reactor κ) (held : HandleInner × κ → Bool) :
    ∃ actions, CompioEngine.opens actions = 0 ∧
      CompioEngine.EngineRun s.erase actions (s.release held).erase :=
  dropHandles_run held s.handles [] s.erase rfl

end Erasure

end Reactor

/-! ## Jobs -/

/-- An operation that is not completed, with its callback. -/
inductive Job (κ : Type) where
  | openStat (id : ℕ) (request : OpenRequest) (onDone : κ)
  | read (handle : HandleInner) (offset len : ℕ) (onDone : κ)
  | readDir (path : PathBuf) (onDone : κ)

namespace Job

variable {κ : Type}

def onDone : Job κ → κ
  | .openStat _ _ onDone => onDone
  | .read _ _ _ onDone => onDone
  | .readDir _ onDone => onDone

def ofOpen (entry : (ℕ × OpenRequest) × κ) : Job κ :=
  .openStat entry.1.1 entry.1.2 entry.2

def ofRead (entry : ReadTask × κ) : Job κ :=
  .read entry.1.handle entry.1.offset entry.1.len entry.2

def ofReadDir (entry : PathBuf × κ) : Job κ :=
  .readDir entry.1 entry.2

end Job

/-- The operation that a command asks for. -/
def Posted.job {κ : Type} : Posted κ → Option (Job κ)
  | .openStat id request onDone => some (.openStat id request onDone)
  | .read handle offset len onDone => some (.read handle offset len onDone)
  | .readDir path onDone => some (.readDir path onDone)
  | _ => none

namespace Reactor

variable {κ : Type}

/-- What the engine has to complete. -/
def jobs (s : Reactor κ) : Multiset (Job κ) :=
  (s.submitting.map Job.ofOpen : List (Job κ)) + (s.commands.filterMap Posted.job : List (Job κ)) +
    (s.opening.map Job.ofOpen : List (Job κ)) + (s.reading.map Job.ofRead : List (Job κ)) +
    (s.listing.map Job.ofReadDir : List (Job κ))

section Jobs

variable {s t : Reactor κ} {index offset len : ℕ} {request : OpenRequest} {onDone : κ}

/-- What is taken out of a list is one element of it. -/
theorem coe_map_eraseIdx {α β : Type} (f : α → β) {items : List α} {item : α}
    (h : items[index]? = some item) :
    ((items.map f : List β) : Multiset β) = f item ::ₘ ((items.eraseIdx index).map f : List β) := by
  rw [Multiset.coe_eq_coe.mpr ((perm_eraseIdx h).map f), List.map_cons, Multiset.cons_coe]

theorem coe_map_concat {α β : Type} (f : α → β) (items : List α) (item : α) :
    (((items ++ [item]).map f : List β) : Multiset β) = f item ::ₘ (items.map f : List β) := by
  rw [Multiset.cons_coe, Multiset.coe_eq_coe, List.map_append]
  exact List.perm_append_singleton _ _

theorem coe_filterMap_cons {command : Posted κ} {job : Job κ} (hjob : command.job = some job)
    (commands : List (Posted κ)) :
    (((command :: commands).filterMap Posted.job : List (Job κ)) : Multiset (Job κ)) =
      job ::ₘ (commands.filterMap Posted.job : List (Job κ)) := by
  rw [List.filterMap_cons_some hjob, Multiset.cons_coe]

theorem post_jobs {command : Posted κ} (hrunning : s.running = true) :
    (s.post command).jobs = (command.job.toList : Multiset (Job κ)) + s.jobs := by
  have hlast : [command].filterMap Posted.job = command.job.toList := by
    cases hjob : command.job with
    | none => exact List.filterMap_cons_none hjob
    | some job => exact List.filterMap_cons_some hjob
  rw [post, if_pos hrunning]
  unfold jobs
  dsimp only
  rw [List.filterMap_append, hlast, ← Multiset.coe_add]
  abel

theorem mem_post_jobs {command : Posted κ} {job : Job κ} (h : job ∈ (s.post command).jobs) :
    command.job = some job ∨ job ∈ s.jobs := by
  cases hrunning : s.running with
  | true =>
      rw [post_jobs hrunning] at h
      rcases Multiset.mem_add.mp h with hposted | hearlier
      · exact Or.inl (Option.mem_toList.mp hposted)
      · exact Or.inr hearlier
  | false =>
      rw [post, if_neg (by rw [hrunning]; exact Bool.false_ne_true)] at h
      exact Or.inr h

theorem claimId_jobs (s : Reactor κ) (request : OpenRequest) (onDone : κ) :
    (s.claimId request onDone).jobs = .openStat s.nextId request onDone ::ₘ s.jobs := by
  unfold jobs claimId
  dsimp only
  rw [coe_map_concat]
  simp only [Multiset.cons_add, Job.ofOpen]

theorem submitOpen_jobs (hrunning : s.running = true) (h : s.submitOpen index = some t) :
    t.jobs = s.jobs := by
  obtain ⟨⟨⟨id, request⟩, onDone⟩, hitem, hnext⟩ := Option.bind_eq_some_iff.mp h
  cases hnext
  have hposted := @post_jobs κ { s with submitting := s.submitting.eraseIdx index }
    (.openStat id request onDone) hrunning
  rw [hposted]
  unfold jobs
  dsimp only
  rw [coe_map_eraseIdx Job.ofOpen hitem]
  simp only [Multiset.cons_add, Job.ofOpen]
  rfl

/-- A read is sent through a handle that is alive. -/
theorem read_jobs (hrunning : s.running = true) (h : s.read index offset len onDone = some t) :
    ∃ entry, s.handles[index]? = some entry ∧
      t.jobs = .read entry.1 offset len onDone ::ₘ s.jobs := by
  obtain ⟨entry, hitem, hnext⟩ := Option.bind_eq_some_iff.mp h
  cases hnext
  exact ⟨entry, hitem, post_jobs hrunning⟩

theorem readDir_jobs (hrunning : s.running = true) (path : PathBuf) (onDone : κ) :
    (s.readDir path onDone).jobs = .readDir path onDone ::ₘ s.jobs :=
  post_jobs hrunning

theorem release_jobs (s : Reactor κ) (held : HandleInner × κ → Bool) :
    (s.release held).jobs = s.jobs :=
  rfl

/-- A command without an operation adds no job. -/
theorem post_jobs_none {command : Posted κ} (hjob : command.job = none) :
    (s.post command).jobs = s.jobs := by
  cases hrunning : s.running with
  | true =>
      rw [post_jobs hrunning, hjob]
      exact zero_add _
  | false => rw [post, if_neg (by rw [hrunning]; exact Bool.false_ne_true)]

theorem dropInner_jobs (h : s.dropInner index = some t) : t.jobs = s.jobs := by
  obtain ⟨inner, hitem, hnext⟩ := Option.bind_eq_some_iff.mp h
  rw [← Option.some.inj hnext]
  split
  · exact post_jobs_none rfl
  · rfl

/-- Behind the end of the runtime thread a command is lost with its job. -/
theorem submitOpen_jobs_le (h : s.submitOpen index = some t) : t.jobs ≤ s.jobs := by
  cases hrunning : s.running with
  | true => exact (submitOpen_jobs hrunning h).le
  | false =>
      obtain ⟨⟨⟨id, request⟩, onDone⟩, hitem, hnext⟩ := Option.bind_eq_some_iff.mp h
      have hlost := Option.some.inj hnext
      rw [post, if_neg (by rw [hrunning]; exact Bool.false_ne_true)] at hlost
      rw [← hlost]
      unfold jobs
      dsimp only
      rw [coe_map_eraseIdx Job.ofOpen hitem]
      simp only [Multiset.cons_add]
      exact Multiset.le_cons_self _ _

theorem stop_jobs_le (s : Reactor κ) : s.stop.jobs ≤ s.jobs := by
  unfold jobs stop
  dsimp only
  simp only [List.filterMap_nil, List.map_nil, Multiset.coe_nil, add_zero, add_assoc]
  exact Multiset.le_add_right _ _

/-- A command that is taken becomes a task. -/
theorem takeCommand_jobs (h : s.takeCommand = some t) (hrunning : t.running = true) :
    t.jobs = s.jobs := by
  rw [takeCommand] at h
  split at h
  · split at h
    · cases h
    · cases h
      cases hrunning
    · next handle commands hcommands =>
        cases h
        unfold jobs
        dsimp only
        rw [hcommands]
        rfl
    · next id request onDone commands hcommands =>
        cases h
        unfold jobs
        dsimp only
        rw [hcommands, coe_filterMap_cons rfl, coe_map_concat]
        simp only [Multiset.cons_add, Multiset.add_cons]
        rfl
    · next handle offset len onDone commands hcommands =>
        cases h
        unfold jobs
        dsimp only
        rw [hcommands, coe_filterMap_cons rfl, coe_map_concat]
        simp only [Multiset.cons_add, Multiset.add_cons]
        rfl
    · next path onDone commands hcommands =>
        cases h
        unfold jobs
        dsimp only
        rw [hcommands, coe_filterMap_cons rfl, coe_map_concat]
        simp only [Multiset.cons_add, Multiset.add_cons]
        rfl
  · cases h

theorem takeCommand_running (h : s.takeCommand = some t) : s.running = true := by
  rw [takeCommand] at h
  split at h
  · next hrunning => exact hrunning
  · cases h

theorem takeCommand_frame (h : s.takeCommand = some t) :
    t.handles = s.handles ∧ t.canonCache = s.canonCache := by
  rw [takeCommand] at h
  split at h
  · split at h
    · cases h
    all_goals
      cases h
      exact ⟨rfl, rfl⟩
  · cases h

theorem takeCommand_stop (h : s.takeCommand = some t) (hstop : t.running = false) :
    t = s.stop := by
  rw [takeCommand] at h
  split at h
  · next hrunning =>
      split at h
      · cases h
      · cases h
        rfl
      all_goals
        cases h
        cases hrunning.symm.trans hstop
  · cases h

/-- The end of the runtime thread loses jobs. -/
theorem takeCommand_jobs_le (h : s.takeCommand = some t) : t.jobs ≤ s.jobs := by
  cases hrunning : t.running with
  | true => exact (takeCommand_jobs h hrunning).le
  | false =>
      rw [takeCommand_stop h hrunning]
      exact s.stop_jobs_le

/-- A task that ends is one of the jobs. -/
theorem finishOpen_jobs {os : Os} {descriptor : ℕ} {result : Except IoError Opened}
    (h : s.finishOpen index os descriptor = some (t, onDone, result)) :
    ∃ id request, s.opening[index]? = some ((id, request), onDone) ∧
      result = (Engine.openStat os id request s.engineState).1 ∧
      t.canonCache = (Engine.openStat os id request s.engineState).2.canonCache ∧
      s.jobs = .openStat id request onDone ::ₘ t.jobs := by
  obtain ⟨id, request, state, hitem, hopen, hnext⟩ := finishOpen_cases h
  obtain ⟨hcache, hjobs⟩ : t.canonCache = state.canonCache ∧
      t.jobs = { s with opening := s.opening.eraseIdx index : Reactor κ }.jobs := by
    cases result with
    | error error =>
        dsimp only at hnext
        rw [hnext]
        exact ⟨rfl, rfl⟩
    | ok opened =>
        dsimp only at hnext
        rw [hnext]
        exact ⟨rfl, rfl⟩
  refine ⟨id, request, hitem, by rw [hopen], by rw [hopen, hcache], ?_⟩
  rw [hjobs]
  unfold jobs
  dsimp only
  rw [coe_map_eraseIdx Job.ofOpen hitem]
  simp only [Multiset.cons_add, Multiset.add_cons]
  rfl

/-- An open that succeeds hands out one handle. -/
theorem finishOpen_handles {os : Os} {descriptor : ℕ} {result : Except IoError Opened}
    (h : s.finishOpen index os descriptor = some (t, onDone, result)) :
    t.running = s.running ∧
      ((∃ error, result = .error error ∧ t.handles = s.handles) ∨
        ∃ opened, result = .ok opened ∧
          t.handles = s.handles ++ [(⟨opened.handle.id, ⟨descriptor, opened.file⟩⟩, onDone)]) := by
  obtain ⟨id, request, state, -, -, hnext⟩ := finishOpen_cases h
  cases result with
  | error error =>
      dsimp only at hnext
      rw [hnext]
      exact ⟨rfl, Or.inl ⟨error, rfl, rfl⟩⟩
  | ok opened =>
      dsimp only at hnext
      rw [hnext]
      exact ⟨rfl, Or.inr ⟨opened, rfl, rfl⟩⟩

theorem finishRead_jobs {reply : ℕ → ℕ → ℕ → Except IoError Bytes} {result : ReadResult}
    (h : s.finishRead index reply = some (t, onDone, result)) :
    ∃ task, s.reading[index]? = some (task, onDone) ∧
      s.jobs = .read task.handle task.offset task.len onDone ::ₘ t.jobs ∧
      result = readResult task reply := by
  obtain ⟨⟨task, onDone'⟩, hitem, hnext⟩ := Option.bind_eq_some_iff.mp h
  cases hnext
  refine ⟨task, hitem, ?_, rfl⟩
  unfold jobs
  dsimp only
  rw [coe_map_eraseIdx Job.ofRead hitem]
  simp only [Multiset.cons_add, Multiset.add_cons]
  rfl

theorem finishReadDir_jobs {result result' : ReadDirResult}
    (h : s.finishReadDir index result = some (t, onDone, result')) :
    ∃ path, s.listing[index]? = some (path, onDone) ∧
      s.jobs = .readDir path onDone ::ₘ t.jobs ∧ result' = result := by
  obtain ⟨⟨path, onDone'⟩, hitem, hnext⟩ := Option.bind_eq_some_iff.mp h
  cases hnext
  refine ⟨path, hitem, ?_, rfl⟩
  unfold jobs
  dsimp only
  rw [coe_map_eraseIdx Job.ofReadDir hitem]
  simp only [Multiset.add_cons]
  rfl

end Jobs

/-! ## The exact table -/

/-- What holds of an engine that goes on, after `n` calls of `open_stat`: its file table is
exact, and a read task holds the file of its handle, or none if the handle is inert. -/
structure Exact (n : ℕ) (s : Reactor κ) : Prop where
  drawn : n < CompioEngine.idRange
  sound : CompioEngine.Sound n s.erase
  tasks : ∀ entry ∈ s.reading,
    entry.1.file = if entry.1.handle.id = 0 then none else some entry.1.handle.file

section Exact

variable {n : ℕ} {s t : Reactor κ} {index offset len : ℕ} {request : OpenRequest} {onDone : κ}

theorem exact_initial : Exact 0 (initial : Reactor κ) where
  drawn := by decide
  sound := CompioEngine.sound_initial
  tasks _ hentry := absurd hentry List.not_mem_nil

/-- No file is registered under the id of the inert handles. -/
theorem Exact.lookup_inert (h : Exact n s) : s.files.lookup 0 = none := by
  have hunused : 0 ∉ s.erase.custody.keys :=
    fun hkey => absurd (h.sound.ids 0 hkey).1 (Nat.lt_irrefl 0)
  exact h.sound.exact.none_of_unused hunused

theorem Exact.ids_pos (h : Exact n s) {id : ℕ} (hopening : (id, request) ∈ s.erase.opening) :
    id ≠ 0 := by
  have hid : id ∈ (s.erase.opening.map Prod.fst : List ℕ) := List.mem_map_of_mem hopening
  have hreserved : id ∈ s.erase.custody.keys :=
    Multiset.mem_add.mpr (Or.inl (Multiset.mem_add.mpr (Or.inr hid)))
  exact (h.sound.ids id hreserved).1.ne'

theorem Exact.of_step (h : Exact n s) (action : CompioEngine.Action)
    (hopens : CompioEngine.opens [action] = 0) (hstep : s.erase.step action = some t.erase)
    (hreading : ∀ entry ∈ t.reading, entry ∈ s.reading) : Exact n t where
  drawn := h.drawn
  sound := by
    have hsound := (CompioEngine.step_sound h.sound (by rw [hopens]; exact h.drawn) hstep).1
    rwa [hopens] at hsound
  tasks entry hentry := h.tasks entry (hreading entry hentry)

theorem post_reading (s : Reactor κ) (command : Posted κ) :
    (s.post command).reading = s.reading := by
  obtain ⟨commands, heq⟩ := s.post_eq command
  rw [heq]

theorem Exact.claimId (h : Exact n s) (hdrawn : n + 1 < CompioEngine.idRange) :
    Exact (n + 1) (s.claimId request onDone) where
  drawn := hdrawn
  sound := by
    rw [claimId_erase]
    exact (h.sound.claimId hdrawn request).1
  tasks := h.tasks

theorem Exact.submitOpen (h : Exact n s) (hrunning : s.running = true)
    (hstep : s.submitOpen index = some t) : Exact n t := by
  refine h.of_step (.submitOpen index) rfl (submitOpen_erase hrunning hstep) ?_
  obtain ⟨item, -, hnext⟩ := Option.bind_eq_some_iff.mp hstep
  cases hnext
  rw [post_reading]
  exact fun _ hentry => hentry

theorem Exact.read (h : Exact n s) (hrunning : s.running = true)
    (hstep : s.read index offset len onDone = some t) : Exact n t := by
  refine h.of_step (.read index offset len) rfl (read_erase hrunning hstep) ?_
  obtain ⟨item, -, hnext⟩ := Option.bind_eq_some_iff.mp hstep
  cases hnext
  rw [post_reading]
  exact fun _ hentry => hentry

theorem Exact.readDir (h : Exact n s) (hrunning : s.running = true) (path : PathBuf) :
    Exact n (s.readDir path onDone) := by
  refine h.of_step (.readDir path) rfl (congrArg some (readDir_erase hrunning path).symm) ?_
  rw [Reactor.readDir, post_reading]
  exact fun _ hentry => hentry

theorem Exact.dropInner (h : Exact n s) (hrunning : s.running = true)
    (hstep : s.dropInner index = some t) : Exact n t := by
  refine h.of_step (.dropInner index) rfl (dropInner_erase hrunning hstep) ?_
  obtain ⟨inner, -, hnext⟩ := Option.bind_eq_some_iff.mp hstep
  rw [← Option.some.inj hnext]
  split
  · rw [post_reading]
    exact fun _ hentry => hentry
  · exact fun _ hentry => hentry

theorem Exact.shutdown (h : Exact n s) : Exact n s.shutdown where
  drawn := h.drawn
  sound := by
    rw [shutdown_erase]
    exact h.sound
  tasks := by
    rw [Reactor.shutdown, post_reading]
    exact h.tasks

theorem Exact.release (h : Exact n s) (held : HandleInner × κ → Bool) :
    Exact n (s.release held) where
  drawn := h.drawn
  sound := by
    obtain ⟨actions, hopens, hrun⟩ := release_erase s held
    have hsound := (CompioEngine.run_sound h.sound (by rw [hopens]; exact h.drawn) hrun).1
    rwa [hopens] at hsound
  tasks := h.tasks

/-- A read that is taken finds the file of its handle. -/
theorem Exact.lookup_read (h : Exact n s) {handle : HandleInner} {commands : List (Posted κ)}
    (hcommands : s.commands = .read handle offset len onDone :: commands) :
    s.files.lookup handle.id = if handle.id = 0 then none else some handle.file := by
  split
  · next hid =>
      rw [hid]
      exact h.lookup_inert
  · next hid =>
      refine h.sound.tableExact.finds handle offset len (commands.filterMap Posted.erase) ?_ hid
      unfold erase
      dsimp only
      rw [hcommands]
      rfl

theorem Exact.takeCommand (h : Exact n s) (hstep : s.takeCommand = some t)
    (hrunning : t.running = true) : Exact n t where
  drawn := h.drawn
  sound := by
    have herase := takeCommand_erase hstep hrunning
    exact (@CompioEngine.step_sound n s.erase t.erase .takeCommand h.sound h.drawn herase).1
  tasks := by
    rw [Reactor.takeCommand] at hstep
    split at hstep
    · split at hstep
      · cases hstep
      · cases hstep
        cases hrunning
      · cases hstep
        exact h.tasks
      · cases hstep
        exact h.tasks
      · next handle offset len onDone commands hcommands =>
          cases hstep
          intro entry hentry
          rcases List.mem_append.mp hentry with hearlier | hlast
          · exact h.tasks entry hearlier
          · rw [List.mem_singleton.mp hlast]
            exact h.lookup_read hcommands
      · cases hstep
        exact h.tasks
    · cases hstep

theorem Exact.finishOpen (h : Exact n s) {os : Os} {descriptor : ℕ}
    {result : Except IoError Opened}
    (hstep : s.finishOpen index os descriptor = some (t, onDone, result)) : Exact n t := by
  refine h.of_step (.finishOpen index os descriptor) rfl (finishOpen_erase hstep) ?_
  obtain ⟨id, request, state, -, -, hnext⟩ := finishOpen_cases hstep
  cases result with
  | error error =>
      dsimp only at hnext
      rw [hnext]
      exact fun _ hentry => hentry
  | ok opened =>
      dsimp only at hnext
      rw [hnext]
      exact fun _ hentry => hentry

theorem Exact.finishRead (h : Exact n s) {reply : ℕ → ℕ → ℕ → Except IoError Bytes}
    {result : ReadResult} (hstep : s.finishRead index reply = some (t, onDone, result)) :
    Exact n t := by
  refine h.of_step (.finishRead index) rfl (finishRead_erase hstep) ?_
  obtain ⟨item, -, hnext⟩ := Option.bind_eq_some_iff.mp hstep
  cases hnext
  exact fun _ hentry => List.mem_of_mem_eraseIdx hentry

theorem Exact.finishReadDir (h : Exact n s) {result result' : ReadDirResult}
    (hstep : s.finishReadDir index result = some (t, onDone, result')) : Exact n t := by
  refine h.of_step (.finishReadDir index) rfl (finishReadDir_erase hstep) ?_
  obtain ⟨item, -, hnext⟩ := Option.bind_eq_some_iff.mp hstep
  cases hnext
  exact fun _ hentry => hentry

end Exact

end Reactor

end EnvoyFiles
