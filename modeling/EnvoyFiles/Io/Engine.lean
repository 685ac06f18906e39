import EnvoyFiles.Io.Os

/-!
# Opening files in the engine

The model of `open_stat`, `parent_cached_canonicalize` and `read_at` in
`envoy-files-io/src/engine.rs` on Unix.  Between an open and its containment
check other requests may be served; the check and the change of the cache are
one uninterrupted step of the runtime thread.  A request is taken as one step
here.
-/

namespace EnvoyFiles

/-- Canonical parent directories by the components of the parent's path. -/
abbrev CanonCache := List (List String × Location)

/-- The state of the runtime thread. -/
structure EngineState where
  files : List (ℕ × Location)
  canonCache : CanonCache

/-- `HashMap::insert`. -/
def insertEntry {κ ν : Type*} [DecidableEq κ] (key : κ) (value : ν)
    (entries : List (κ × ν)) : List (κ × ν) :=
  (key, value) :: entries.filter fun entry => entry.1 ≠ key

/-- What a successful open returns. -/
structure Opened where
  handle : FileHandle
  stat : FileStat
  prefetch : Bytes
  /-- The file behind the handle, which the caller does not see. -/
  file : Location
  deriving DecidableEq

namespace Engine

/-! ## Reading and inspecting -/

/-- The loop of `read_at` behind the first read. -/
def readRest (read : ℕ → ℕ → Except IoError Bytes) (offset len : ℕ) (buf : Bytes) :
    Except IoError Bytes :=
  if buf.length < len then
    match read (offset + buf.length) (len - buf.length) with
    | .error error => .error error
    | .ok more =>
        if more.length = 0 then .ok buf else readRest read offset len (buf ++ more)
  else
    .ok buf
termination_by len - buf.length
decreasing_by
  rw [List.length_append]
  omega

/-- `read_at`: reads on after a short read, until `len` bytes or the end. -/
def readAt (file : Option (ℕ → ℕ → Except IoError Bytes)) (offset len : ℕ) : ReadResult :=
  match file with
  | none => .error ⟨.notFound, none⟩
  | some read =>
      match read offset len with
      | .error error => .error error
      | .ok first =>
          if first.length = len ∨ first.length = 0 then .ok first
          else readRest read offset len first

/-- Seconds and nanoseconds from 1970; nothing is known of an earlier time. -/
def mtimeParts : Except IoError SystemTime → ℤ × ℕ
  | .ok time =>
      if 0 ≤ time then (time / 1000000000, (time % 1000000000).toNat) else (0, 0)
  | .error _ => (0, 0)

def statFromMetadata (metadata : Metadata) : FileStat where
  size := metadata.len
  mtimeUnix := (mtimeParts metadata.modified).1
  mtimeNanos := (mtimeParts metadata.modified).2
  isDir := metadata.isDir

/-! ## Containment -/

/-- How the location of a file is found that opened without following a final
link. -/
abbrev Canonicalizer := Os → PathBuf → CanonCache → Except IoError Location × CanonCache

def canonCacheMax : ℕ := 4096

/-- `parent_cached_canonicalize`: the cached canonical parent, joined with the
file name. -/
def parentCachedCanonicalize : Canonicalizer := fun os path cache =>
  match path.parent, path.fileName with
  | some parent, some name =>
      match cache.lookup parent with
      | some canonParent => (.ok (canonParent ++ [name]), cache)
      | none =>
          match os.lookup parent with
          | .error error => (.error error, cache)
          | .ok canonParent =>
              let cache := if canonCacheMax ≤ cache.length then [] else cache
              (.ok (canonParent ++ [name]), insertEntry parent canonParent cache)
  | _, _ => (os.canonicalize path, cache)

/-- `std::fs::canonicalize` in its place. -/
def uncachedCanonicalize : Canonicalizer := fun os path cache =>
  (os.canonicalize path, cache)

/-- `Path::starts_with` on a canonical path. -/
def startsWith (location : Location) (root : PathBuf) : Bool :=
  root.components.isPrefixOf location

def permissionDenied : IoError := ⟨.permissionDenied, none⟩

/-- The check that what was opened is still inside the root. -/
def verifyContainment (canonicalizer : Canonicalizer) (os : Os) (request : OpenRequest)
    (finalIsSymlink : Bool) (cache : CanonCache) : Except IoError Unit × CanonCache :=
  match request.containmentRoot with
  | none => (.ok (), cache)
  | some root =>
      let (canonical, cache) :=
        if finalIsSymlink then (os.canonicalize request.path, cache)
        else canonicalizer os request.path cache
      match canonical with
      | .error error => (.error error, cache)
      | .ok location =>
          (if startsWith location root then .ok () else .error permissionDenied, cache)

/-! ## Opening -/

/-- Opens with `O_NOFOLLOW` first; `ELOOP` with symlinks allowed is opened again
with the link followed.  Returns the file and whether a final link was
followed. -/
def openFile (os : Os) (request : OpenRequest) : Except IoError (Location × Bool) :=
  match os.openAt request.path true with
  | .ok file => .ok (file, false)
  | .error error =>
      if (error.rawOsError = some eloop ∨ error.rawOsError = some emlink) ∧
          request.denySymlinks = false then
        match os.openAt request.path false with
        | .ok file => .ok (file, true)
        | .error error => .error error
      else
        .error error

/-- The first bytes of the file, read within the open.  A read error is left for
the normal read path to meet. -/
def prefetch (os : Os) (request : OpenRequest) (file : Location) (stat : FileStat) : Bytes :=
  let want := if stat.isDir then 0 else min request.prefetchLen stat.size
  if 0 < want then
    match readAt (some (os.readAt file)) 0 want with
    | .ok bytes => bytes
    | .error _ => []
  else
    []

/-- The end of `open_stat`: the file is registered, unless the prefetch holds
all of it. -/
def registerFile (os : Os) (id : ℕ) (request : OpenRequest) (file : Location)
    (stat : FileStat) (state : EngineState) : Opened × EngineState :=
  let bytes := prefetch os request file stat
  if stat.isDir = false ∧ bytes.length = stat.size then
    -- the handle is inert and the file closes here
    (⟨⟨0⟩, stat, bytes, file⟩, state)
  else
    (⟨⟨id⟩, stat, bytes, file⟩, { state with files := insertEntry id file state.files })

/-- `open_stat`, with the canonicalization of the containment check left
open. -/
def openStatWith (canonicalizer : Canonicalizer) (os : Os) (id : ℕ) (request : OpenRequest)
    (state : EngineState) : Except IoError Opened × EngineState :=
  match openFile os request with
  | .error error => (.error error, state)
  | .ok (file, finalIsSymlink) =>
      match os.metadata file with
      | .error error => (.error error, state)
      | .ok metadata =>
          let (verdict, canonCache) :=
            verifyContainment canonicalizer os request finalIsSymlink state.canonCache
          match verdict with
          | .error error => (.error error, { state with canonCache })
          | .ok () =>
              let (opened, state) :=
                registerFile os id request file (statFromMetadata metadata)
                  { state with canonCache }
              (.ok opened, state)

section Opening

variable {canonicalizer : Canonicalizer} {os : Os} {id : ℕ} {request : OpenRequest}
  {state : EngineState} {file : Location} {finalIsSymlink : Bool} {cache : CanonCache}
  {opened : Opened}

/-- A file that opens is the one full resolution names.  If no link was followed
it opened with `O_NOFOLLOW`, and if one was, links were allowed. -/
theorem openFile_ok (h : openFile os request = .ok (file, finalIsSymlink)) :
    os.canonicalize request.path = .ok file ∧
      (finalIsSymlink = false → os.openAt request.path true = .ok file) ∧
      (finalIsSymlink = true → request.denySymlinks = false) := by
  rw [openFile] at h
  split at h
  · next found hopen =>
      cases h
      exact ⟨Os.openAt_canonicalize hopen, fun _ => hopen, nofun⟩
  · next error herror =>
      split at h
      · next hagain =>
          split at h
          · next found hopen =>
              cases h
              exact ⟨Os.openAt_canonicalize hopen, nofun, fun _ => hagain.2⟩
          · nomatch h
      · nomatch h

/-- A check that passes has found a location inside the root. -/
theorem verifyContainment_ok {root : PathBuf} (hroot : request.containmentRoot = some root)
    (h : (verifyContainment canonicalizer os request finalIsSymlink cache).1 = .ok ()) :
    ∃ location, startsWith location root = true ∧
      (finalIsSymlink = true → os.canonicalize request.path = .ok location) ∧
      (finalIsSymlink = false → (canonicalizer os request.path cache).1 = .ok location) := by
  rw [verifyContainment] at h
  rw [hroot] at h
  cases finalIsSymlink with
  | true =>
      cases hcanonical : os.canonicalize request.path with
      | error error => simp [hcanonical] at h
      | ok location =>
          refine ⟨location, ?_, fun _ => rfl, nofun⟩
          simpa [hcanonical] using h
  | false =>
      cases hcanonical : (canonicalizer os request.path cache).1 with
      | error error => simp [hcanonical] at h
      | ok location =>
          refine ⟨location, ?_, nofun, fun _ => rfl⟩
          simpa [hcanonical] using h

theorem verifyContainment_cache :
    (verifyContainment canonicalizer os request finalIsSymlink cache).2 = cache ∨
      (verifyContainment canonicalizer os request finalIsSymlink cache).2 =
        (canonicalizer os request.path cache).2 := by
  rw [verifyContainment]
  split
  · exact Or.inl rfl
  · cases finalIsSymlink with
    | true =>
        left
        dsimp only
        split <;> rfl
    | false =>
        right
        dsimp only
        split <;> rfl

@[simp] theorem registerFile_file {stat : FileStat} :
    (registerFile os id request file stat state).1.file = file := by
  unfold registerFile
  dsimp only
  split <;> rfl

@[simp] theorem registerFile_canonCache {stat : FileStat} :
    (registerFile os id request file stat state).2.canonCache = state.canonCache := by
  unfold registerFile
  dsimp only
  split <;> rfl

/-- What is registered does not depend on what the engine holds. -/
theorem registerFile_opened {stat : FileStat} {other : EngineState} :
    (registerFile os id request file stat state).1 =
      (registerFile os id request file stat other).1 := by
  unfold registerFile
  dsimp only
  split <;> rfl

/-- An open that succeeds has passed its check, and its file is registered. -/
theorem openStatWith_ok
    (h : (openStatWith canonicalizer os id request state).1 = .ok opened) :
    ∃ finalIsSymlink metadata, openFile os request = .ok (opened.file, finalIsSymlink) ∧
      os.metadata opened.file = .ok metadata ∧
      (verifyContainment canonicalizer os request finalIsSymlink state.canonCache).1 =
        .ok () ∧
      opened =
        (registerFile os id request opened.file (statFromMetadata metadata) state).1 := by
  rw [openStatWith] at h
  split at h
  · nomatch h
  · next file finalIsSymlink hopen =>
      split at h
      · nomatch h
      · next metadata hmetadata =>
          dsimp only at h
          split at h
          · nomatch h
          · next hverdict =>
              have hopened := Except.ok.inj h
              rw [@registerFile_opened os id request _ file _ state] at hopened
              have hfile : opened.file = file := by
                rw [← hopened, registerFile_file]
              rw [hfile]
              exact ⟨finalIsSymlink, metadata, hopen, hmetadata, hverdict, hopened.symm⟩

/-- What an open returns depends on the cache through its check only. -/
theorem openStatWith_congr {other : Canonicalizer} {otherState : EngineState}
    (h : ∀ file finalIsSymlink, openFile os request = .ok (file, finalIsSymlink) →
      (verifyContainment canonicalizer os request finalIsSymlink state.canonCache).1 =
        (verifyContainment other os request finalIsSymlink otherState.canonCache).1) :
    (openStatWith canonicalizer os id request state).1 =
      (openStatWith other os id request otherState).1 := by
  simp only [openStatWith]
  cases hopen : openFile os request with
  | error error => rfl
  | ok found =>
      obtain ⟨file, finalIsSymlink⟩ := found
      cases hmetadata : os.metadata file with
      | error error => simp only [hmetadata]
      | ok metadata =>
          have hverdict := h file finalIsSymlink hopen
          cases hcheck : verifyContainment canonicalizer os request finalIsSymlink
            state.canonCache with
          | mk verdict cache =>
              cases hother : verifyContainment other os request finalIsSymlink
                otherState.canonCache with
              | mk verdict' cache' =>
                  rw [hcheck, hother] at hverdict
                  dsimp only at hverdict
                  subst hverdict
                  simp only [hmetadata, hcheck, hother]
                  cases verdict with
                  | error error => rfl
                  | ok passed =>
                      dsimp only
                      rw [registerFile_opened]

/-- The cache changes by the canonicalizer alone. -/
theorem openStatWith_canonCache :
    (openStatWith canonicalizer os id request state).2.canonCache = state.canonCache ∨
      (openStatWith canonicalizer os id request state).2.canonCache =
        (canonicalizer os request.path state.canonCache).2 := by
  rw [openStatWith]
  split
  · exact Or.inl rfl
  · split
    · exact Or.inl rfl
    · dsimp only
      split
      · exact verifyContainment_cache
      · rw [registerFile_canonCache]
        exact verifyContainment_cache

end Opening

def openStat : Os → ℕ → OpenRequest → EngineState → Except IoError Opened × EngineState :=
  openStatWith parentCachedCanonicalize

/-! ## Sessions -/

/-- A request and the filesystem that it is served from. -/
structure Visit where
  os : Os
  request : OpenRequest

structure Answer where
  id : ℕ
  visit : Visit
  outcome : Except IoError Opened

/-- The engine and the answers it has given. -/
structure Session where
  nextId : ℕ
  state : EngineState
  answers : List Answer

def Session.start : Session := ⟨1, ⟨[], []⟩, []⟩

/-- Serves one request under the next id. -/
def Session.serveWith (canonicalizer : Canonicalizer) (session : Session) (visit : Visit) :
    Option Session :=
  let result :=
    openStatWith canonicalizer visit.os session.nextId visit.request session.state
  some
    { nextId := session.nextId + 1
      state := result.2
      answers := session.answers ++ [⟨session.nextId, visit, result.1⟩] }

def Session.serve : Session → Visit → Option Session :=
  Session.serveWith parentCachedCanonicalize

end Engine

end EnvoyFiles
