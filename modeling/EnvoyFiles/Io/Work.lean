import EnvoyFiles.Io.Jobs

/-!
# The work of the engine

What the engine has still to do, counted in turns.  An `open_stat` is sent, taken and ends;
its handle is dropped, its close is sent and taken.  A worker thread adds to this work by
submitting, and every turn of the engine takes from it.
-/

namespace EnvoyFiles

/-- The turns that a command leads to, with its own. -/
def Posted.weight {κ : Type} : Posted κ → ℕ
  | .openStat _ _ _ => 5
  | .read _ _ _ _ => 2
  | .readDir _ _ => 2
  | .close _ => 1
  | .shutdown => 1

namespace Reactor

variable {κ : Type}

/-- The turns that are left to do. -/
def weight (s : Reactor κ) : ℕ :=
  6 * s.submitting.length + (s.commands.map Posted.weight).sum + 4 * s.opening.length +
    s.reading.length + s.listing.length + 3 * s.handles.length + 2 * s.dropping.length

section Work

variable {s t : Reactor κ} {index offset len : ℕ} {request : OpenRequest} {onDone : κ}

/-- A command that is lost adds nothing. -/
theorem post_weight (s : Reactor κ) (command : Posted κ) :
    (s.post command).weight ≤ s.weight + command.weight := by
  rw [post]
  split
  · simp only [weight, List.map_append, List.map_cons, List.map_nil, List.sum_append,
      List.sum_cons, List.sum_nil]
    omega
  · exact Nat.le_add_right _ _

theorem claimId_weight (s : Reactor κ) (request : OpenRequest) (onDone : κ) :
    (s.claimId request onDone).weight = s.weight + 6 := by
  simp only [weight, claimId, List.length_append, List.length_cons, List.length_nil]
  omega

theorem read_weight (h : s.read index offset len onDone = some t) :
    t.weight ≤ s.weight + 2 := by
  obtain ⟨entry, -, hnext⟩ := Option.bind_eq_some_iff.mp h
  cases hnext
  exact post_weight s _

theorem readDir_weight (s : Reactor κ) (path : PathBuf) (onDone : κ) :
    (s.readDir path onDone).weight ≤ s.weight + 2 :=
  post_weight s (.readDir path onDone)

theorem shutdown_weight (s : Reactor κ) : s.shutdown.weight ≤ s.weight + 1 :=
  post_weight s .shutdown

/-- An index of a list leaves one element less. -/
theorem length_eraseIdx_of_getElem? {α : Type} {list : List α} {element : α}
    (h : list[index]? = some element) : (list.eraseIdx index).length + 1 = list.length := by
  obtain ⟨hlt, -⟩ := List.getElem?_eq_some_iff.mp h
  rw [List.length_eraseIdx_of_lt hlt]
  omega

theorem submitOpen_weight (h : s.submitOpen index = some t) : t.weight < s.weight := by
  obtain ⟨⟨⟨id, request⟩, onDone⟩, hitem, hnext⟩ := Option.bind_eq_some_iff.mp h
  have hlength := length_eraseIdx_of_getElem? hitem
  rw [← Option.some.inj hnext]
  refine (post_weight _ _).trans_lt ?_
  simp only [weight, Posted.weight]
  omega

/-- A handle that is let go of waits for its `Drop`. -/
theorem release_weight (s : Reactor κ) (held : HandleInner × κ → Bool) :
    (s.release held).weight ≤ s.weight := by
  have hlength : (s.handles.filter held).length +
      (s.handles.filter fun entry => !held entry).length = s.handles.length := by
    have hsplit := List.length_eq_length_filter_add (l := s.handles) held
    omega
  simp only [weight, release, List.length_append, List.length_map]
  omega

theorem dropInner_weight (h : s.dropInner index = some t) : t.weight < s.weight := by
  obtain ⟨inner, hitem, hnext⟩ := Option.bind_eq_some_iff.mp h
  have hlength := length_eraseIdx_of_getElem? hitem
  rw [← Option.some.inj hnext]
  split
  · refine (post_weight _ _).trans_lt ?_
    simp only [weight, Posted.weight]
    omega
  · simp only [weight]
    omega

/-- What the end of the loop leaves undone is never done. -/
theorem takeCommand_weight (h : s.takeCommand = some t) : t.weight < s.weight := by
  rw [takeCommand] at h
  split at h
  · split at h
    · cases h
    all_goals
      next hcommands =>
        cases h
        simp only [weight, stop, hcommands, List.map_cons, List.map_nil, List.sum_cons,
          List.sum_nil, Posted.weight, List.length_append, List.length_cons, List.length_nil]
        omega
  · cases h

/-- Of the four turns that an open has left, three are those of its handle. -/
theorem finishOpen_weight {os : Os} {descriptor : ℕ} {result : Except IoError Opened}
    (h : s.finishOpen index os descriptor = some (t, onDone, result)) : t.weight < s.weight := by
  obtain ⟨id, request, state, hitem, -, hnext⟩ := finishOpen_cases h
  have hlength := length_eraseIdx_of_getElem? hitem
  cases result with
  | error error =>
      dsimp only at hnext
      rw [hnext]
      simp only [weight]
      omega
  | ok opened =>
      dsimp only at hnext
      rw [hnext]
      simp only [weight, register, List.length_append, List.length_cons, List.length_nil]
      omega

theorem finishRead_weight {reply : ℕ → ℕ → ℕ → Except IoError Bytes} {result : ReadResult}
    (h : s.finishRead index reply = some (t, onDone, result)) : t.weight < s.weight := by
  obtain ⟨item, hitem, hnext⟩ := Option.bind_eq_some_iff.mp h
  have hlength := length_eraseIdx_of_getElem? hitem
  cases hnext
  simp only [weight]
  omega

theorem finishReadDir_weight {result result' : ReadDirResult}
    (h : s.finishReadDir index result = some (t, onDone, result')) : t.weight < s.weight := by
  obtain ⟨item, hitem, hnext⟩ := Option.bind_eq_some_iff.mp h
  have hlength := length_eraseIdx_of_getElem? hitem
  cases hnext
  simp only [weight]
  omega

end Work

/-! ## The end of the work -/

/-- No thread of the engine has anything left to do. -/
structure Quiescent (s : Reactor κ) : Prop where
  submitting : s.submitting = []
  dropping : s.dropping = []
  commands : s.running = true → s.commands = []
  opening : s.opening = []
  reading : s.reading = []
  listing : s.listing = []

section Quiescent

variable {s : Reactor κ} {index : ℕ}

/-- A quiescent engine has no job. -/
theorem Quiescent.jobs (h : Quiescent s) (hrunning : s.running = true) : s.jobs = 0 := by
  rw [Reactor.jobs, h.submitting, h.commands hrunning, h.opening, h.reading, h.listing]
  rfl

/-- While the loop goes on, it takes whatever has been sent. -/
theorem takeCommand_isSome (hrunning : s.running = true) (hcommands : s.commands ≠ []) :
    ∃ t, s.takeCommand = some t := by
  rw [takeCommand, if_pos hrunning]
  cases hcase : s.commands with
  | nil => exact absurd hcase hcommands
  | cons command commands => cases command <;> exact ⟨_, rfl⟩

/-- An open can end, whatever the filesystem is like. -/
theorem finishOpen_isSome {id : ℕ} {request : OpenRequest} {onDone : κ}
    (hitem : s.opening[index]? = some ((id, request), onDone)) (os : Os) (descriptor : ℕ) :
    ∃ t result, s.finishOpen index os descriptor = some (t, onDone, result) := by
  rw [finishOpen, hitem]
  rw [Option.bind_eq_bind, Option.bind_some]
  dsimp only
  cases (Engine.openStat os id request s.engineState).1 with
  | error error => exact ⟨_, _, rfl⟩
  | ok opened => exact ⟨_, _, rfl⟩

/-- The open files of a quiescent engine are those of the handles that are alive. -/
theorem Exact.quiescent {n : ℕ} (h : Exact n s) (hquiescent : Quiescent s)
    (hrunning : s.running = true) (id : ℕ) (file : File) :
    s.files.lookup id = some file ↔
      ∃ entry ∈ s.handles, entry.1 = ⟨id, file⟩ ∧ id ≠ 0 := by
  have hcommands : s.erase.commands = [] := by
    unfold erase
    dsimp only
    rw [hquiescent.commands hrunning]
    rfl
  refine (h.sound.tableExact.quiescent hcommands hquiescent.dropping id file).trans ?_
  constructor
  · rintro ⟨shared, hshared, hinner, hid⟩
    obtain ⟨entry, hentry, rfl⟩ := List.mem_map.mp hshared
    exact ⟨entry, hentry, hinner, hid⟩
  · rintro ⟨entry, hentry, hinner, hid⟩
    exact ⟨⟨entry.1, 1⟩, List.mem_map_of_mem hentry, hinner, hid⟩

end Quiescent

end Reactor

end EnvoyFiles
