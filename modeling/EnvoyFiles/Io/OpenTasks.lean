import EnvoyFiles.Io.Containment
import EnvoyFiles.Io.Reactor

/-!
# Opens between their awaits

The task of an `open_stat` gives up the runtime thread where it awaits the system: for an
open, for the metadata and for the first bytes.  Only the check of the path touches what the
tasks share, and it awaits nothing.  On a filesystem that does not change, what a task returns
in the end is what the uninterrupted `open_stat` returns with any sound cache.
-/

namespace EnvoyFiles

/-- What a task of `open_stat` awaits, with what it has found before. -/
inductive OpenTask where
  /-- The open with `O_NOFOLLOW`. -/
  | opening
  /-- The open that follows the final link. -/
  | reopening
  /-- The metadata of the file it has opened. -/
  | inspecting (file : File) (finalIsSymlink : Bool)
  /-- The first bytes of the file, which has passed the check. -/
  | prefetching (file : File) (stat : FileStat)
  deriving DecidableEq

/-- What comes of a task that goes on: its next await, or its end with an error or with what it
has opened and the descriptor of that. -/
inductive Resumed where
  | awaits (task : OpenTask)
  | ends (result : Except IoError (Opened × ℕ))

namespace OpenTask

/-- How many bytes are prefetched. -/
def want (request : OpenRequest) (stat : FileStat) : ℕ :=
  if stat.isDir then 0 else min request.prefetchLen stat.size

/-- The end of `open_stat`, with the first bytes read. -/
def register (os : Os) (id : ℕ) (request : OpenRequest) (file : File) (stat : FileStat) : Resumed :=
  .ends (.ok
    ((Engine.registerFile os id request file.location stat ⟨[], []⟩).1, file.descriptor))

/-- `open_stat` from one await to the next, where an open that succeeds gets the descriptor. -/
def resume (os : Os) (id : ℕ) (request : OpenRequest) (descriptor : ℕ) (cache : CanonCache) :
    OpenTask → Resumed × CanonCache
  | .opening =>
      match os.openAt request.path true with
      | .ok location => (.awaits (.inspecting ⟨descriptor, location⟩ false), cache)
      | .error error =>
          if (error.rawOsError = some eloop ∨ error.rawOsError = some emlink) ∧
              request.denySymlinks = false then
            (.awaits .reopening, cache)
          else
            (.ends (.error error), cache)
  | .reopening =>
      match os.openAt request.path false with
      | .ok location => (.awaits (.inspecting ⟨descriptor, location⟩ true), cache)
      | .error error => (.ends (.error error), cache)
  | .inspecting file finalIsSymlink =>
      match os.metadata file.location with
      | .error error => (.ends (.error error), cache)
      | .ok metadata =>
          let (verdict, cache) := Engine.verifyContainment Engine.parentCachedCanonicalize os
            request finalIsSymlink cache
          match verdict with
          | .error error => (.ends (.error error), cache)
          | .ok () =>
              let stat := Engine.statFromMetadata metadata
              if 0 < want request stat then
                (.awaits (.prefetching file stat), cache)
              else
                (register os id request file stat, cache)
  | .prefetching file stat => (register os id request file stat, cache)

/-- What the task has found is what the filesystem has. -/
def Agrees (os : Os) (request : OpenRequest) : OpenTask → Prop
  | .opening => True
  | .reopening => ∃ error, os.openAt request.path true = .error error ∧
      (error.rawOsError = some eloop ∨ error.rawOsError = some emlink) ∧
      request.denySymlinks = false
  | .inspecting file finalIsSymlink =>
      Engine.openFile os request = .ok (file.location, finalIsSymlink)
  | .prefetching file stat => ∃ finalIsSymlink metadata,
      Engine.openFile os request = .ok (file.location, finalIsSymlink) ∧
      os.metadata file.location = .ok metadata ∧ stat = Engine.statFromMetadata metadata ∧
      (Engine.verifyContainment Engine.parentCachedCanonicalize os request finalIsSymlink []).1 =
        .ok ()

end OpenTask

/-- What a task has come to agrees with the filesystem, and where it has ended, with the
uninterrupted `open_stat`. -/
def Resumed.Agrees (os : Os) (id : ℕ) (request : OpenRequest) : Resumed → Prop
  | .awaits task => task.Agrees os request
  | .ends result => ∀ state : EngineState, Engine.CacheSound os state.canonCache →
      (Engine.openStat os id request state).1 = result.map Prod.fst

/-! ## Sound caches -/

namespace Engine

section Caches

variable {os : Os} {id : ℕ} {request : OpenRequest} {path : PathBuf} {cache : CanonCache}
  {state : EngineState} {file : Location} {finalIsSymlink : Bool} {metadata : Metadata}
  {error : IoError}

/-- A sound cache gives what an empty one does. -/
theorem parentCachedCanonicalize_empty (hsound : CacheSound os cache) :
    (parentCachedCanonicalize os path cache).1 = (parentCachedCanonicalize os path []).1 := by
  unfold parentCachedCanonicalize
  split
  · next parent name _ _ =>
      rw [List.lookup_nil]
      cases hcached : cache.lookup parent with
      | some canonParent =>
          dsimp only
          rw [hsound.lookup hcached]
      | none =>
          dsimp only
          cases os.lookup parent <;> rfl
  · rfl

theorem verifyContainment_empty (hsound : CacheSound os cache) :
    (verifyContainment parentCachedCanonicalize os request finalIsSymlink cache).1 =
      (verifyContainment parentCachedCanonicalize os request finalIsSymlink []).1 := by
  simp only [verifyContainment]
  cases request.containmentRoot with
  | none => rfl
  | some root =>
      cases finalIsSymlink with
      | true =>
          simp only [if_true]
          cases os.canonicalize request.path <;> rfl
      | false =>
          have hsame := @parentCachedCanonicalize_empty os request.path cache hsound
          simp only [Bool.false_eq_true, if_false]
          generalize parentCachedCanonicalize os request.path cache = found at hsame ⊢
          generalize parentCachedCanonicalize os request.path [] = found' at hsame ⊢
          obtain ⟨canonical, cache⟩ := found
          obtain ⟨canonical', cache'⟩ := found'
          dsimp only at hsame ⊢
          subst hsame
          cases canonical <;> rfl

theorem verifyContainment_sound (hsound : CacheSound os cache) :
    CacheSound os (verifyContainment parentCachedCanonicalize os request finalIsSymlink cache).2 := by
  rcases @verifyContainment_cache parentCachedCanonicalize os request finalIsSymlink cache with
    hcache | hcache
  · rw [hcache]
    exact hsound
  · rw [hcache]
    exact parentCachedCanonicalize_sound hsound

/-! ## The ends of `open_stat` -/

theorem openStat_unopened (hopen : openFile os request = .error error) :
    (openStat os id request state).1 = .error error := by
  rw [openStat, openStatWith]
  rw [hopen]

theorem openStat_uninspected (hopen : openFile os request = .ok (file, finalIsSymlink))
    (hmetadata : os.metadata file = .error error) :
    (openStat os id request state).1 = .error error := by
  rw [openStat, openStatWith]
  rw [hopen]
  dsimp only
  rw [hmetadata]

/-- With a sound cache the check alone decides on a file that has been inspected. -/
theorem openStat_checked (hopen : openFile os request = .ok (file, finalIsSymlink))
    (hmetadata : os.metadata file = .ok metadata) (hsound : CacheSound os state.canonCache) :
    (openStat os id request state).1 =
      (verifyContainment parentCachedCanonicalize os request finalIsSymlink []).1.map fun _ =>
        (registerFile os id request file (statFromMetadata metadata) ⟨[], []⟩).1 := by
  have hsame := @verifyContainment_empty os request state.canonCache finalIsSymlink hsound
  rw [openStat, openStatWith]
  rw [hopen]
  dsimp only
  rw [hmetadata]
  dsimp only
  rw [← hsame]
  generalize verifyContainment parentCachedCanonicalize os request finalIsSymlink
    state.canonCache = found
  obtain ⟨verdict, cache⟩ := found
  cases verdict with
  | error error => rfl
  | ok passed => exact congrArg Except.ok registerFile_opened

end Caches

end Engine

/-! ## Tasks -/

namespace OpenTask

section Tasks

variable {os : Os} {id descriptor : ℕ} {request : OpenRequest} {cache : CanonCache}
  {task : OpenTask}

/-- Going on, a task leaves the cache sound. -/
theorem resume_sound (hsound : Engine.CacheSound os cache) :
    Engine.CacheSound os (task.resume os id request descriptor cache).2 := by
  cases task with
  | opening =>
      rw [resume]
      split
      · exact hsound
      · split
        · exact hsound
        · exact hsound
  | reopening =>
      rw [resume]
      split
      · exact hsound
      · exact hsound
  | inspecting file finalIsSymlink =>
      have hchecked := @Engine.verifyContainment_sound os request cache finalIsSymlink hsound
      rw [resume]
      split
      · exact hsound
      · dsimp only
        split
        · exact hchecked
        · split
          · exact hchecked
          · exact hchecked
  | prefetching file stat => exact hsound

/-- A file that opens with `O_NOFOLLOW` is the one that `open_stat` opens. -/
theorem openFile_noFollow {location : Location} (h : os.openAt request.path true = .ok location) :
    Engine.openFile os request = .ok (location, false) := by
  rw [Engine.openFile]
  rw [h]

theorem openFile_again {error : IoError} (h : os.openAt request.path true = .error error)
    (hlink : error.rawOsError = some eloop ∨ error.rawOsError = some emlink)
    (hdeny : request.denySymlinks = false) :
    Engine.openFile os request =
      (os.openAt request.path false).map fun location => (location, true) := by
  rw [Engine.openFile]
  rw [h]
  dsimp only
  rw [if_pos ⟨hlink, hdeny⟩]
  cases os.openAt request.path false <;> rfl

/-- Going on, a task keeps to the filesystem; it ends as the uninterrupted `open_stat`. -/
theorem resume_agrees (hsound : Engine.CacheSound os cache) (htask : task.Agrees os request) :
    (task.resume os id request descriptor cache).1.Agrees os id request := by
  cases task with
  | opening =>
      rw [resume]
      split
      · next location hopen => exact openFile_noFollow hopen
      · next error herror =>
          split
          · next hagain => exact ⟨error, herror, hagain.1, hagain.2⟩
          · next hnot =>
              intro state _
              apply Engine.openStat_unopened
              rw [Engine.openFile]
              rw [herror]
              exact if_neg hnot
  | reopening =>
      obtain ⟨error, herror, hlink, hdeny⟩ := htask
      have hagain := openFile_again herror hlink hdeny
      rw [resume]
      split
      · next location hopen =>
          rw [hopen] at hagain
          exact hagain
      · next error' hfails =>
          rw [hfails] at hagain
          exact fun state _ => Engine.openStat_unopened hagain
  | inspecting file finalIsSymlink =>
      have hopen : Engine.openFile os request = .ok (file.location, finalIsSymlink) := htask
      have hsame := @Engine.verifyContainment_empty os request cache finalIsSymlink hsound
      rw [resume]
      split
      · next error hmetadata =>
          exact fun state _ => Engine.openStat_uninspected hopen hmetadata
      · next metadata hmetadata =>
          generalize Engine.verifyContainment Engine.parentCachedCanonicalize os request
            finalIsSymlink cache = found at hsame ⊢
          obtain ⟨verdict, cache⟩ := found
          dsimp only at hsame ⊢
          cases verdict with
          | error error =>
              intro state hstate
              rw [Engine.openStat_checked hopen hmetadata hstate, ← hsame]
              rfl
          | ok passed =>
              dsimp only
              split
              · exact ⟨finalIsSymlink, metadata, hopen, hmetadata, rfl, hsame.symm⟩
              · intro state hstate
                rw [Engine.openStat_checked hopen hmetadata hstate, ← hsame]
                rfl
  | prefetching file stat =>
      obtain ⟨finalIsSymlink, metadata, hopen, hmetadata, rfl, hpassed⟩ := htask
      intro state hstate
      rw [Engine.openStat_checked hopen hmetadata hstate, hpassed]
      rfl

end Tasks

end OpenTask

end EnvoyFiles
