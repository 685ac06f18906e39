import EnvoyFiles.Io.Engine
import EnvoyFiles.Support.Transition

/-!
# The engine as a concurrent system

The model of `CompioEngine`, `FileHandle` and `run_reactor` in
`envoy-files-io/src/engine.rs` before `Shutdown`.  Worker threads submit commands and
clone and drop handles; the runtime thread takes one command at a time and runs the
tasks it has spawned, which end in any order.  A task that opens or reads is taken as one
step.
-/

namespace EnvoyFiles

/-- A `compio_fs::File`: an open descriptor and the file it reads. -/
structure File where
  descriptor : ℕ
  location : Location
  deriving DecidableEq

/-- `HandleInner`, with the file that its open has opened, which its holders do not
see. -/
structure HandleInner where
  id : ℕ
  file : File
  deriving DecidableEq

/-- The clones of one handle. -/
structure SharedHandle where
  inner : HandleInner
  clones : ℕ

/-- What the runtime thread is asked to do.  A `Read` or `Close` carries the handle it was
sent through, of which the runtime thread sees the id. -/
inductive Command where
  | openStat (id : ℕ) (request : OpenRequest)
  | read (handle : HandleInner) (offset len : ℕ)
  | readDir (path : PathBuf)
  | close (handle : HandleInner)

/-- A spawned `read_at`, with its clone of the file. -/
structure ReadTask where
  handle : HandleInner
  file : Option File
  offset : ℕ
  len : ℕ

structure CompioEngine where
  /-- `next_id`, which wraps around. -/
  nextId : ℕ
  /-- Calls of `open_stat` that have drawn an id and not sent their command. -/
  submitting : List (ℕ × OpenRequest)
  commands : List Command
  /-- Spawned tasks. -/
  opening : List (ℕ × OpenRequest)
  reading : List ReadTask
  listing : List PathBuf
  files : List (ℕ × File)
  canonCache : CanonCache
  handles : List SharedHandle
  /-- Handles whose last clone is gone and whose `Drop` is still to run. -/
  dropping : List HandleInner

/-- `HashMap::remove`. -/
def removeEntry {κ ν : Type*} [DecidableEq κ] (key : κ) (entries : List (κ × ν)) :
    List (κ × ν) :=
  entries.filter fun entry => entry.1 ≠ key

section Entries

variable {κ ν : Type*} [DecidableEq κ] {key key' : κ} {value : ν} {entries : List (κ × ν)}

theorem lookup_removeEntry :
    (removeEntry key entries).lookup key' =
      if key' = key then none else entries.lookup key' := by
  induction entries with
  | nil => simp [removeEntry]
  | cons entry entries ih =>
      obtain ⟨first, value⟩ := entry
      rw [removeEntry] at ih ⊢
      by_cases hfirst : first = key
      · subst hfirst
        rw [List.filter_cons_of_neg (by simp), ih]
        by_cases hkey : key' = first
        · rw [if_pos hkey, if_pos hkey]
        · rw [if_neg hkey, if_neg hkey, List.lookup_cons, beq_false_of_ne hkey]
      · rw [List.filter_cons_of_pos (by simpa using hfirst), List.lookup_cons,
          List.lookup_cons, ih]
        by_cases hkey : key' = key
        · subst hkey
          rw [beq_false_of_ne (Ne.symm hfirst), if_pos rfl]
        · rw [if_neg hkey, if_neg hkey]

theorem lookup_insertEntry :
    (insertEntry key value entries).lookup key' =
      if key' = key then some value else entries.lookup key' := by
  have hrest := @lookup_removeEntry κ ν _ key key' entries
  rw [removeEntry] at hrest
  rw [insertEntry]
  rw [List.lookup_cons, hrest]
  by_cases hkey : key' = key
  · subst hkey
    simp
  · rw [beq_false_of_ne hkey, if_neg hkey, if_neg hkey]

end Entries

/-- The prefetch holds the whole file. -/
def Opened.inert (opened : Opened) : Prop :=
  opened.stat.isDir = false ∧ opened.prefetch.length = opened.stat.size

instance (opened : Opened) : Decidable opened.inert :=
  inferInstanceAs (Decidable (_ ∧ _))

namespace CompioEngine

/-- The width of `next_id`. -/
def idRange : ℕ := 2 ^ 64

def initial : CompioEngine where
  nextId := 1
  submitting := []
  commands := []
  opening := []
  reading := []
  listing := []
  files := []
  canonCache := []
  handles := []
  dropping := []

/-! ## The worker threads -/

/-- The first half of `open_stat`, which draws an id. -/
def claimId (s : CompioEngine) (request : OpenRequest) : CompioEngine :=
  { s with
    nextId := (s.nextId + 1) % idRange
    submitting := s.submitting ++ [(s.nextId, request)] }

/-- A command is sent. -/
def send (s : CompioEngine) (command : Command) : CompioEngine :=
  { s with commands := s.commands ++ [command] }

/-- The second half of `open_stat`. -/
def submitOpen (s : CompioEngine) (index : ℕ) : Option CompioEngine := do
  let (id, request) ← s.submitting[index]?
  return send { s with submitting := s.submitting.eraseIdx index } (.openStat id request)

/-- `read` through a handle that is alive. -/
def read (s : CompioEngine) (index offset len : ℕ) : Option CompioEngine := do
  let shared ← s.handles[index]?
  return s.send (.read shared.inner offset len)

def readDir (s : CompioEngine) (path : PathBuf) : CompioEngine :=
  s.send (.readDir path)

def cloneHandle (s : CompioEngine) (index : ℕ) : Option CompioEngine := do
  let shared ← s.handles[index]?
  return { s with
    handles := s.handles.set index { shared with clones := shared.clones + 1 } }

/-- A clone is dropped.  With the last one the handle is no longer alive. -/
def dropHandle (s : CompioEngine) (index : ℕ) : Option CompioEngine := do
  let shared ← s.handles[index]?
  return if shared.clones ≤ 1 then
      { s with
        handles := s.handles.eraseIdx index
        dropping := s.dropping ++ [shared.inner] }
    else
      { s with handles := s.handles.set index { shared with clones := shared.clones - 1 } }

/-- `HandleInner::drop`. -/
def dropInner (s : CompioEngine) (index : ℕ) : Option CompioEngine := do
  let inner ← s.dropping[index]?
  let s' := { s with dropping := s.dropping.eraseIdx index }
  return if inner.id ≠ 0 then s'.send (.close inner) else s'

/-! ## The runtime thread -/

/-- One turn of the loop of `run_reactor`. -/
def takeCommand (s : CompioEngine) : Option CompioEngine :=
  match s.commands with
  | [] => none
  | .close handle :: commands =>
      some { s with commands, files := removeEntry handle.id s.files }
  | .openStat id request :: commands =>
      some { s with commands, opening := s.opening ++ [(id, request)] }
  | .read handle offset len :: commands =>
      some { s with
        commands
        reading := s.reading ++ [⟨handle, s.files.lookup handle.id, offset, len⟩] }
  | .readDir path :: commands =>
      some { s with commands, listing := s.listing ++ [path] }

/-- What `open_stat` is called with, the files known by their locations. -/
def engineState (s : CompioEngine) : EngineState where
  files := s.files.map fun entry => (entry.1, entry.2.location)
  canonCache := s.canonCache

/-- The end of an `open_stat` that has opened its file: unless the handle is inert the
file is registered, and the callback gets the handle. -/
def register (s : CompioEngine) (id : ℕ) (opened : Opened) (descriptor : ℕ) :
    CompioEngine :=
  let file : File := ⟨descriptor, opened.file⟩
  { s with
    files := if opened.inert then s.files else insertEntry id file s.files
    handles := s.handles ++ [⟨⟨opened.handle.id, file⟩, 1⟩] }

/-- A task that opens a file ends, with the descriptor the system has given it if the file
was opened. -/
def finishOpen (s : CompioEngine) (index : ℕ) (os : Os) (descriptor : ℕ) :
    Option CompioEngine := do
  let (id, request) ← s.opening[index]?
  let (result, state) := Engine.openStat os id request s.engineState
  let s' := { s with
    opening := s.opening.eraseIdx index
    canonCache := state.canonCache }
  match result with
  | .error _ => return s'
  | .ok opened => return s'.register id opened descriptor

/-- A task that reads a file ends; what it has read goes to its callback. -/
def finishRead (s : CompioEngine) (index : ℕ) : Option CompioEngine := do
  let _ ← s.reading[index]?
  return { s with reading := s.reading.eraseIdx index }

def finishReadDir (s : CompioEngine) (index : ℕ) : Option CompioEngine := do
  let _ ← s.listing[index]?
  return { s with listing := s.listing.eraseIdx index }

section Opens

variable {os : Os} {id descriptor : ℕ} {request : OpenRequest} {state state' : EngineState}
  {opened : Opened}

/-- What an open that succeeds registers. -/
theorem openStat_registers
    (h : Engine.openStat os id request state = (.ok opened, state')) :
    opened.handle.id = (if opened.inert then 0 else id) ∧
      state'.files =
        if opened.inert then state.files else insertEntry id opened.file state.files := by
  rw [Engine.openStat, Engine.openStatWith] at h
  split at h
  · cases h
  · split at h
    · cases h
    · dsimp only at h
      split at h
      · cases h
      · obtain ⟨hopened, hstate⟩ := Prod.mk.inj h
        have hopened := Except.ok.inj hopened
        subst hopened hstate
        rw [Engine.registerFile]
        dsimp only
        split
        · next hwhole => exact ⟨(if_pos hwhole).symm, (if_pos hwhole).symm⟩
        · next hpart => exact ⟨(if_neg hpart).symm, (if_neg hpart).symm⟩

/-- Registering a file is what `open_stat` does to the table. -/
theorem register_engineState (s : CompioEngine)
    (h : Engine.openStat os id request s.engineState = (.ok opened, state')) :
    ({ s with canonCache := state'.canonCache }.register id opened descriptor).engineState =
      state' := by
  obtain ⟨-, hfiles⟩ := openStat_registers h
  obtain ⟨files, canonCache⟩ := state'
  rw [engineState, register]
  dsimp only at hfiles ⊢
  rw [hfiles]
  congr 1
  split
  · rfl
  · simp only [insertEntry, engineState]
    rw [List.map_cons, List.filter_map]
    rfl

end Opens

/-! ## Interleavings -/

/-- What any thread may do next. -/
inductive Action where
  | claimId (request : OpenRequest)
  | submitOpen (index : ℕ)
  | read (index offset len : ℕ)
  | readDir (path : PathBuf)
  | cloneHandle (index : ℕ)
  | dropHandle (index : ℕ)
  | dropInner (index : ℕ)
  | takeCommand
  | finishOpen (index : ℕ) (os : Os) (descriptor : ℕ)
  | finishRead (index : ℕ)
  | finishReadDir (index : ℕ)

def step (s : CompioEngine) : Action → Option CompioEngine
  | .claimId request => some (s.claimId request)
  | .submitOpen index => s.submitOpen index
  | .read index offset len => s.read index offset len
  | .readDir path => some (s.readDir path)
  | .cloneHandle index => s.cloneHandle index
  | .dropHandle index => s.dropHandle index
  | .dropInner index => s.dropInner index
  | .takeCommand => s.takeCommand
  | .finishOpen index os descriptor => s.finishOpen index os descriptor
  | .finishRead index => s.finishRead index
  | .finishReadDir index => s.finishReadDir index

/-- An interleaving of the threads. -/
abbrev EngineRun : CompioEngine → List Action → CompioEngine → Prop :=
  Transition.Run step fun _ _ => True

/-- The calls of `open_stat` among some actions. -/
def opens : List Action → ℕ
  | [] => 0
  | .claimId _ :: actions => opens actions + 1
  | _ :: actions => opens actions

end CompioEngine

end EnvoyFiles
