import EnvoyFiles.Filter.Disks
import EnvoyFiles.Filter.HeadRequests
import EnvoyFiles.Io.OpenTasks
import EnvoyFiles.Server.Isolation
import EnvoyFiles.Server.Quiescence

/-!
# Responses of a shared engine

On a filesystem that does not change, what an open finds is given by its path: neither the
id, nor the prefetch, nor what other streams have left in the cache matters.  So every
stream of a server answers with the response to what the sequential lookup of its request
finds, and where reads have no faults it is sent to its end.
-/

namespace EnvoyFiles

open Filter

/-! ## Opens -/

namespace Engine

section Opens

variable {os : Os} {id id' : ℕ} {request : OpenRequest} {state : EngineState} {path : PathBuf}
  {cache : CanonCache} {finalIsSymlink : Bool} {opened : Opened}

/-- What is registered for a file has its attributes. -/
theorem registerFile_stat {file : Location} {stat : FileStat} :
    (registerFile os id request file stat state).1.stat = stat := by
  unfold registerFile
  dsimp only
  split <;> rfl

theorem registerFile_prefetch {file : Location} {stat : FileStat} :
    (registerFile os id request file stat state).1.prefetch = prefetch os request file stat := by
  unfold registerFile
  dsimp only
  split <;> rfl

/-- Nothing of a directory is prefetched. -/
theorem prefetch_directory {file : Location} {stat : FileStat} (hdir : stat.isDir = true) :
    prefetch os request file stat = [] := by
  unfold prefetch
  rw [hdir]
  rfl

/-- The file that an open finds and its attributes depend on neither the id, the prefetch,
nor a sound cache. -/
theorem openStat_empty (hsound : CacheSound os state.canonCache) (prefetchLen : ℕ) :
    (openStat os id request state).1.map (fun opened => (opened.file, opened.stat)) =
      (openStat os id' { request with prefetchLen } ⟨[], []⟩).1.map
        fun opened => (opened.file, opened.stat) := by
  have hopenFile : openFile os { request with prefetchLen } = openFile os request := rfl
  have hverify (link : Bool) (cache : CanonCache) :
      verifyContainment parentCachedCanonicalize os { request with prefetchLen } link cache =
        verifyContainment parentCachedCanonicalize os request link cache := rfl
  simp only [openStat, openStatWith, hopenFile, hverify]
  cases openFile os request with
  | error error => rfl
  | ok found =>
      obtain ⟨file, finalIsSymlink⟩ := found
      dsimp only
      cases os.metadata file with
      | error error => rfl
      | ok metadata =>
          have hsame := @verifyContainment_empty os request state.canonCache finalIsSymlink hsound
          dsimp only
          generalize verifyContainment parentCachedCanonicalize os request finalIsSymlink
            state.canonCache = found at hsame ⊢
          generalize verifyContainment parentCachedCanonicalize os request finalIsSymlink
            [] = found' at hsame ⊢
          obtain ⟨verdict, cache⟩ := found
          obtain ⟨verdict', cache'⟩ := found'
          dsimp only at hsame ⊢
          subst hsame
          cases verdict with
          | error error => rfl
          | ok passed =>
              simp only [Except.map]
              rw [registerFile_file, registerFile_file, registerFile_stat, registerFile_stat]

end Opens

end Engine

namespace Site

/-- The file at a location. -/
def stored (site : Site) (location : Location) : StoredFile :=
  match site.os.tree location with
  | some (.file file) =>
      ⟨Engine.statFromMetadata ⟨false, file.content.length, file.modified⟩, file.content,
        Disk.file_size file⟩
  | some (.directory directory) =>
      ⟨Engine.statFromMetadata ⟨true, directory.len, directory.modified⟩, [],
        Disk.directory_size directory⟩
  | _ => ⟨⟨0, 0, 0, true⟩, [], Filter.directory_size⟩

/-- What the filter can see of a site. -/
def store (cfg : Config) (site : Site) : Store where
  opens path :=
    match (Engine.openStat site.os 1 (openRequest cfg none path) ⟨[], []⟩).1 with
    | .error error => .error error
    | .ok opened => .ok (site.stored opened.file)
  lists := site.lists

section Store

variable {cfg : Config} {site : Site} {location : Location} {metadata : Metadata}
  {id : ℕ} {state : EngineState} {data : Option RequestData} {path : PathBuf}

/-- Where opens are those of a disk, this is its store. -/
theorem store_disk {disk : Disk} (hos : site.os = disk.os)
    (hlists : site.lists = Engine.readDir disk) : site.store cfg = disk.store cfg := by
  rw [store, Disk.store]
  rw [hos, hlists]
  congr 1
  funext path
  cases (Engine.openStat disk.os 1 (openRequest cfg none path) ⟨[], []⟩).1 with
  | error error => rfl
  | ok opened =>
      dsimp only
      rw [stored, Disk.stored]
      rw [hos]
      rfl

/-- A file that is open has its attributes and content stored. -/
theorem stored_metadata (h : site.os.metadata location = .ok metadata) :
    Engine.statFromMetadata metadata = (site.stored location).stat ∧
      (metadata.isDir = false → (site.stored location).content = site.content location) := by
  rw [stored, content]
  rcases Os.metadata_eq_ok h with ⟨file, hnode, rfl⟩ | ⟨directory, hnode, rfl⟩
  · rw [hnode]
    exact ⟨rfl, fun _ => rfl⟩
  · rw [hnode]
    exact ⟨rfl, Bool.noConfusion⟩

/-- What an open hands out is stored. -/
theorem openStat_stored {request : OpenRequest} {opened : Opened}
    (h : (Engine.openStat site.os id request state).1 = .ok opened) :
    opened.stat = (site.stored opened.file).stat ∧
      opened.prefetch <+: (site.stored opened.file).content ∧
      (opened.stat.isDir = false →
        (site.stored opened.file).content = site.content opened.file) := by
  obtain ⟨-, metadata, -, hmetadata, -, hopened⟩ := Engine.openStatWith_ok h
  obtain ⟨hstat, hcontent⟩ := stored_metadata hmetadata
  have hstat' : opened.stat = Engine.statFromMetadata metadata := by
    rw [hopened, Engine.registerFile_stat]
  have hprefetch : opened.prefetch = Engine.prefetch site.os request opened.file
      (Engine.statFromMetadata metadata) := by
    rw [hopened, Engine.registerFile_prefetch, Engine.registerFile_file]
  refine ⟨hstat'.trans hstat, ?_, fun hfile => hcontent ?_⟩
  · rw [hprefetch]
    rcases Os.metadata_eq_ok hmetadata with ⟨file, hnode, rfl⟩ | ⟨directory, -, rfl⟩
    · have hfile : (site.stored opened.file).content = file.content := by
        rw [stored]
        rw [hnode]
      rw [hfile]
      exact (Engine.prefetch_part site.readsFiles hnode).trans (List.take_prefix _ _)
    · rw [Engine.prefetch_directory rfl]
      exact List.nil_prefix
  · rw [hstat'] at hfile
    exact hfile

/-- An open finds the same as the store. -/
theorem openStat_store (hsound : Engine.CacheSound site.os state.canonCache) :
    (∃ error, (Engine.openStat site.os id (openRequest cfg data path) state).1 = .error error ∧
      (site.store cfg).opens path = .error error) ∨
      ∃ opened, (Engine.openStat site.os id (openRequest cfg data path) state).1 = .ok opened ∧
        (site.store cfg).opens path = .ok (site.stored opened.file) := by
  have hsame := @Engine.openStat_empty site.os id 1 (openRequest cfg data path) state hsound
    (prefetchLen cfg none)
  rw [show { openRequest cfg data path with prefetchLen := prefetchLen cfg none } =
    openRequest cfg none path from rfl] at hsame
  rw [store]
  dsimp only
  generalize (Engine.openStat site.os id (openRequest cfg data path) state).1 = found at hsame ⊢
  generalize (Engine.openStat site.os 1 (openRequest cfg none path) ⟨[], []⟩).1 = found' at hsame ⊢
  cases found with
  | error error =>
      cases found' with
      | error error' =>
          cases hsame
          exact Or.inl ⟨error, rfl, rfl⟩
      | ok opened' => cases hsame
  | ok opened =>
      cases found' with
      | error error' => cases hsame
      | ok opened' =>
          have hfile : opened.file = opened'.file :=
            congrArg Prod.fst (Except.ok.inj hsame)
          refine Or.inr ⟨opened, rfl, ?_⟩
          dsimp only
          rw [hfile]

end Store

end Site

/-! ## One stream on its own -/

namespace Filter

/-- Every open that a stream waits for is one of `submit_open`. -/
def OpensPaths (cfg : Config) (s : State) : Prop :=
  ∀ request ctx, .openStat request ctx ∈ s.pending → ∃ data path,
    request = openRequest cfg data path

section Moves

variable {crates : Crates} {cfg : Config} {env : Env} {s t : State}

theorem opensPaths_initial : OpensPaths cfg State.initial :=
  fun _ _ hop => absurd hop List.not_mem_nil

theorem OpensPaths.submit (h : OpensPaths cfg s) {op : Op}
    (hpending : t.pending = s.pending ++ [op])
    (hop : ∀ request ctx, op = .openStat request ctx → ∃ data path,
      request = openRequest cfg data path) : OpensPaths cfg t := by
  intro request ctx hmem
  rw [hpending] at hmem
  rcases List.mem_append.mp hmem with hearlier | hlast
  · exact h request ctx hearlier
  · exact hop request ctx (List.mem_singleton.mp hlast).symm

theorem opensPaths_move (hmove : Move crates cfg env s t) (h : OpensPaths cfg s) :
    OpensPaths cfg t := by
  cases hmove with
  | hook hook =>
      obtain ⟨depth, commits, -, heq⟩ := onHook_eq s hook
      rw [heq]
      exact h
  | accept _ _ _ =>
      refine h.submit rfl ?_
      rintro request ctx ⟨⟩
      exact ⟨_, _, rfl⟩
  | complete hpending _ _ =>
      intro request ctx hmem
      rw [deliver_pending] at hmem
      exact h request ctx (mem_of_mem_rest hpending hmem)
  | openNext _ _ _ _ =>
      refine h.submit rfl ?_
      rintro request ctx ⟨⟩
      exact ⟨_, _, rfl⟩
  | readDir _ _ _ => exact h.submit rfl (by simp)
  | issueRead _ _ _ _ => exact h.submit rfl (by simp)
  | _ => exact h

/-- The environment of a site is that of its store: only the store's files are read. -/
theorem run_serves_store {site : Site} {headers : List (Bytes × Bytes)} {handle : FileHandle}
    {location : Location} {actions : List Action}
    (hrun : StreamRun crates cfg (site.serves headers handle location) State.initial actions s) :
    StreamRun crates cfg
      ((site.store cfg).serves (fun _ => site.content location) headers)
      State.initial actions s := by
  refine hrun.mono_of_invariant (I := fun s => OpensPaths cfg s ∧ s.batch = [])
    ⟨opensPaths_initial, rfl⟩ ?_ ?_
  · rintro u action v ⟨hu, hbatch⟩ hok hnext
    obtain ⟨hmoves, hbatch'⟩ := step_moves hbatch hok hnext
    exact ⟨Transition.closure_invariant hmoves (fun _ _ => opensPaths_move) hu, hbatch'⟩
  · rintro u action ⟨hu, -⟩ hok
    cases action with
    | complete index completion =>
        intro op hop
        have hcompletes := hok op hop
        have hpending := List.mem_of_getElem? hop
        cases op with
        | openStat request ctx =>
            cases completion with
            | openStat result =>
                obtain ⟨id, state, -, hcache, rfl, hfile⟩ := hcompletes
                obtain ⟨data, path, rfl⟩ := hu request ctx hpending
                rcases @Site.openStat_store cfg site id state data path hcache with
                  ⟨error, hopen, hstore⟩ | ⟨opened, hopen, hstore⟩
                · rw [hopen]
                  exact hstore
                · obtain ⟨hstat, hprefetch, hcontent⟩ := Site.openStat_stored hopen
                  rw [hopen]
                  refine ⟨_, hstore, hstat, hprefetch, fun hregular => ?_⟩
                  rw [hcontent hregular, (hfile opened hopen hregular).2]
            | read result => exact hcompletes
            | readDir result => exact hcompletes
        | read handle' offset len seq =>
            cases completion with
            | read result =>
                cases result with
                | ok data => exact hcompletes.2
                | error error => trivial
            | openStat result => exact hcompletes
            | readDir result => exact hcompletes
        | readDir path =>
            cases completion with
            | readDir result => exact hcompletes
            | openStat result => exact hcompletes
            | read result => exact hcompletes
    | requestHeaders headers' reentry => exact hok
    | commit => trivial
    | scheduled reentry => trivial
    | hook hook => trivial
    | streamComplete => trivial

/-- The environment of a site whose file has a handle of its own and reads without faults. -/
theorem site_steady {site : Site} {headers : List (Bytes × Bytes)} {handle : FileHandle}
    {location : Location} (hfault : ∀ error, ¬site.fault error) (hid : handle.id ≠ 0) :
    (site.serves headers handle location).Steady handle where
  file w op completion event opened hok hevent hfile := by
    cases op with
    | openStat request ctx =>
        cases completion with
        | openStat result =>
            obtain ⟨id, state, -, -, rfl, hopens⟩ := hok
            cases hopen : (Engine.openStat site.os id request state).1 with
            | error error =>
                rw [hopen] at hevent
                cases hevent
                cases hfile
            | ok found =>
                rw [hopen] at hevent
                cases hevent
                rw [IoEvent.file] at hfile
                split at hfile
                · cases hfile
                · next hregular =>
                    rw [← Option.some.inj hfile]
                    exact (hopens found hopen (by simpa using hregular)).1
        | read result => cases hevent
        | readDir result => cases hevent
    | read held offset len seq =>
        cases completion with
        | read result =>
            cases hevent
            cases hfile
        | openStat result => cases hevent
        | readDir result => cases hevent
    | readDir path =>
        cases completion with
        | readDir result =>
            cases hevent
            cases hfile
        | openStat result => cases hevent
        | read result => cases hevent
  reads w offset len seq error hok := by
    rcases hok with hinert | hfaulty
    · exact hid hinert
    · exact hfault error hfaulty

/-- The environment of a site whose file comes back with an inert handle. -/
theorem run_serves_inert {site : Site} {headers : List (Bytes × Bytes)} {location : Location}
    {actions : List Action}
    (hrun : StreamRun crates cfg (site.serves headers ⟨0⟩ location) State.initial actions s) :
    StreamRun crates cfg
      (inertOpens headers (site.stored location).stat (site.content location))
      State.initial actions s := by
  refine hrun.mono_of_mem fun u action _ hok => ?_
  cases action with
  | complete index completion =>
      intro op hop
      have hcompletes := hok op hop
      cases op with
      | openStat request ctx =>
          cases completion with
          | openStat result =>
              obtain ⟨id, state, hid, -, rfl, hopens⟩ := hcompletes
              refine ⟨site.os, id, state, site.readsFiles, hid, rfl, fun opened hopen hfile => ?_⟩
              obtain ⟨hhandle, rfl⟩ := hopens opened hopen hfile
              have hstat := (Site.openStat_stored hopen).1
              obtain ⟨-, metadata, -, hmetadata, -, hopened⟩ := Engine.openStatWith_ok hopen
              refine ⟨hhandle, hstat, ?_⟩
              rcases Os.metadata_eq_ok hmetadata with ⟨file, hnode, rfl⟩ | ⟨directory, -, rfl⟩
              · refine ⟨file.modified, ?_⟩
                rw [Site.content]
                rw [hnode]
              · rw [hopened, Engine.registerFile_stat] at hfile
                cases hfile
          | read result => trivial
          | readDir result => trivial
      | read handle offset len seq => trivial
      | readDir path => trivial
  | requestHeaders headers' reentry => exact hok
  | commit => trivial
  | scheduled reentry => trivial
  | hook hook => trivial
  | streamComplete => trivial

/-- Without faults a stream on its own is never cut short. -/
theorem run_whole {site : Site} {headers : List (Bytes × Bytes)} {handle : FileHandle}
    {location : Location} {actions : List Action} (hfault : ∀ error, ¬site.fault error)
    (hrun : StreamRun crates cfg (site.serves headers handle location) State.initial actions s) :
    ¬Truncated s.trace := by
  by_cases hid : handle.id = 0
  · obtain ⟨id⟩ := handle
    dsimp only at hid
    subst hid
    exact inert_whole (run_serves_inert hrun)
  · exact (run_steadily (site_steady hfault hid) hrun).faultless.whole

/-- So where it has ended, it has sent the answer to its request with all of its body. -/
theorem done_replies {site : Site} {headers : List (Bytes × Bytes)} {handle : FileHandle}
    {location : Location} {actions : List Action} (hchunk : 1 ≤ cfg.chunkSize)
    (hfault : ∀ error, ¬site.fault error)
    (hrun : StreamRun crates cfg (site.serves headers handle location) State.initial actions s)
    (hdone : s.phase = .done) :
    ∃ call, s.answer = some call ∧
      Replies crates cfg (site.store cfg) headers ⟨call, sentBytes s.trace⟩ := by
  have hobeys : Obeys s := run_obeys hrun
  obtain ⟨call, hanswer⟩ := hobeys.answered hdone
  obtain ⟨sent, hreplies, hsends⟩ := run_replies hchunk (run_serves_store hrun) hanswer
  refine ⟨call, hanswer, ?_⟩
  rw [sends_all hchunk hobeys hdone hanswer (run_whole hfault hrun) hreplies hsends]
  exact hreplies

end Moves

end Filter

namespace Server

/-! ## Responses -/

section Responses

variable {crates : Crates} {cfg : Config} {site : Site}
  {requests requests' : ℕ → List (Bytes × Bytes)} {s s' : Server} {actions actions' : List Action}
  {index index' : ℕ} {stream stream' : Stream} {call call' : Call}

/-- On a filesystem that does not change, every answer of a server is the response to what
the sequential lookup of that request finds, and nothing else is sent behind it; the other
streams and the order in which threads go on have no part in it. -/
theorem server_replies (hchunk : 1 ≤ cfg.chunkSize)
    (hdrawn : opens actions < CompioEngine.idRange)
    (hrun : ServerRun crates cfg (site.allows requests) initial actions s)
    (hstream : s.streams[index]? = some stream) (hanswer : stream.filter.answer = some call) :
    ∃ sent, Replies crates cfg (site.store cfg) (requests index) ⟨call, sent⟩ ∧
      Sends sent stream.filter.trace := by
  obtain ⟨handle, location, alone, halone⟩ := (server_isolated hdrawn hrun).alone hstream
  exact run_replies hchunk (run_serves_store halone) hanswer

/-- Wherever a `HEAD` request is answered, and whenever, the answer is that of the `GET` request
with the stream ended by its headers: it is complete, no data has been sent behind it and no
read submitted for it. -/
theorem server_head_mirrors_get (hchunk : 1 ≤ cfg.chunkSize)
    (hdrawn : opens actions < CompioEngine.idRange)
    (hrun : ServerRun crates cfg (site.allows requests) initial actions s)
    (hdrawn' : opens actions' < CompioEngine.idRange)
    (hrun' : ServerRun crates cfg (site.allows requests') initial actions' s')
    (hstream : s.streams[index]? = some stream) (hanswer : stream.filter.answer = some call)
    (hstream' : s'.streams[index']? = some stream')
    (hanswer' : stream'.filter.answer = some call')
    (hhead : AsHead (requests index) (requests' index')) :
    call' = call.forHead ∧ stream'.filter.phase = .done ∧
      sentBytes stream'.filter.trace = [] ∧ submittedReads stream'.filter.trace = [] := by
  obtain ⟨handle, location, alone, halone⟩ := (server_isolated hdrawn hrun).alone hstream
  obtain ⟨sent, hreplies, -⟩ := run_replies hchunk (run_serves_store halone) hanswer
  obtain ⟨handle', location', alone', halone'⟩ :=
    (server_isolated hdrawn' hrun').alone hstream'
  obtain ⟨sent', hreplies', -⟩ := run_replies hchunk (run_serves_store halone') hanswer'
  have hcall : call' = call.forHead :=
    congrArg Response.start (hreplies'.unique (replies_asHead hhead hreplies))
  have hstarts : call.startsResponse = true := List.find?_some hanswer
  have hends : call'.endsStream = true := by
    rw [hcall]
    exact call.forHead_endsStream hstarts
  obtain ⟨hdone, hnothing, hunread⟩ := ended_by_answer (run_obeys halone') hanswer' hends
  refine ⟨hcall, hdone, ?_, hunread⟩
  rw [sentBytes]
  rw [hnothing]
  rfl

/-- Where reads have no faults, a response of a server that has ended has been sent whole:
it is the answer to the sequential lookup of its request, with all of its planned body. -/
theorem server_completes (hchunk : 1 ≤ cfg.chunkSize) (hfault : ∀ error, ¬site.fault error)
    (hdrawn : opens actions < CompioEngine.idRange)
    (hrun : ServerRun crates cfg (site.allows requests) initial actions s)
    (hstream : s.streams[index]? = some stream) (hdone : stream.filter.phase = .done) :
    ∃ call, stream.filter.answer = some call ∧
      Replies crates cfg (site.store cfg) (requests index)
        ⟨call, sentBytes stream.filter.trace⟩ := by
  obtain ⟨handle, location, alone, halone⟩ := (server_isolated hdrawn hrun).alone hstream
  exact done_replies hchunk hfault halone hdone

/-- A server that rests has served everyone: where reads have no faults, each stream that has
asked, is not cancelled, has no wakeup coming and is not held back by its client has been sent
the answer to its request with all of its planned body. -/
theorem server_serves_all (hmax : 1 ≤ cfg.maxInflightReads) (hchunk : 1 ≤ cfg.chunkSize)
    (hfault : ∀ error, ¬site.fault error) (hdrawn : opens actions < CompioEngine.idRange)
    (hrun : ServerRun crates cfg (site.allows requests) initial actions s)
    (hrunning : s.reactor.running = true) (hquiet : Quiescent s)
    (hstream : s.streams[index]? = some stream) (hactive : stream.filter.complete = false)
    (hasked : stream.filter.phase ≠ .idle)
    (hwoken : stream.filter.delivering + stream.filter.commits = 0)
    (hflows : ∀ st, stream.filter.phase = .streaming st → st.watermarkDepth = 0) :
    ∃ call, stream.filter.answer = some call ∧
      Replies crates cfg (site.store cfg) (requests index)
        ⟨call, sentBytes stream.filter.trace⟩ := by
  obtain ⟨hsound, -⟩ := run_accounts hdrawn hrun
  have hpending := hquiet.pending hsound hrunning hstream
  obtain ⟨handle, location, alone, halone⟩ := (server_isolated hdrawn hrun).alone hstream
  have hlive := live_run hmax halone
  refine done_replies hchunk hfault halone ?_
  obtain hdone | hwaits | hevents | hcommits | ⟨st, hst, hpaused⟩ :=
    hlive.awaits hactive hasked
  · exact hdone
  · exact absurd hpending hwaits
  · exact absurd hwoken (hlive.woken.commit hevents).ne'
  · exact absurd hwoken hcommits.ne'
  · exact absurd (hflows st hst) hpaused.ne'

end Responses

/-! ### Witnesses -/

theorem server_replies_shared :
    ∃ s stream call, sharedRun = some s ∧ s.streams[0]? = some stream ∧
      stream.filter.answer = some call ∧ ∃ sent, Replies Crates.plain (Config.defaults ⟨"/srv"⟩)
        (smallSite.store (Config.defaults ⟨"/srv"⟩)) (getHeaders "/a") ⟨call, sent⟩ ∧
        Sends sent stream.filter.trace := by
  have hsome : (sharedRun.bind fun s => s.streams[0]?.bind fun stream =>
      stream.filter.answer).isSome = true := by
    decide
  obtain ⟨call, hcall⟩ := Option.isSome_iff_exists.mp hsome
  obtain ⟨s, hs, hcall⟩ := Option.bind_eq_some_iff.mp hcall
  obtain ⟨stream, hstream, hanswer⟩ := Option.bind_eq_some_iff.mp hcall
  exact ⟨s, stream, call, hs, hstream, hanswer,
    server_replies (by decide) (by decide) (sharedRun_allowed hs) hstream hanswer⟩

/-- The headers of a plain `HEAD`. -/
def headHeaders (path : String) : List (Bytes × Bytes) :=
  [(Text.asBytes ":method", Text.asBytes "HEAD"), (Text.asBytes ":path", Text.asBytes path)]

/-- Two streams that ask for the same file, with different methods. -/
def mixedRequests (index : ℕ) : List (Bytes × Bytes) :=
  if index = 0 then getHeaders "/a" else headHeaders "/a"

/-- They are answered step by step in turn. -/
def mixedActions : List Action :=
  [.newStream, .newStream,
    .callback 0 (.requestHeaders (getHeaders "/a") []),
    .callback 1 (.requestHeaders (headHeaders "/a") []),
    .claimId 1, .claimId 0, .sendOpen 1, .sendOpen 0, .takeCommand, .takeCommand,
    .finishOpen 1 smallFileOs 7, .finishOpen 0 smallFileOs 8,
    .callback 0 .commit, .callback 1 .commit,
    .callback 1 (.scheduled []), .callback 0 (.scheduled [])]

theorem mixedActions_allowed {s : Server} (h : replayed mixedActions = some s) :
    ServerRun Crates.plain (Config.defaults ⟨"/srv"⟩) (smallSite.allows mixedRequests) initial
      mixedActions s := by
  refine (replayed_run h).mono_of_mem ?_
  intro u action haction _
  simp only [mixedActions, List.mem_cons, List.not_mem_nil, or_false] at haction
  rcases haction with rfl | rfl | rfl | rfl | rfl | rfl | rfl | rfl | rfl | rfl | rfl | rfl |
    rfl | rfl | rfl | rfl
  all_goals first | rfl | trivial

theorem server_head_mirrors_get_mixed :
    ∃ s get head call call', replayed mixedActions = some s ∧ s.streams[0]? = some get ∧
      s.streams[1]? = some head ∧ get.filter.answer = some call ∧
      head.filter.answer = some call' ∧ call' = call.forHead ∧ head.filter.phase = .done ∧
      sentBytes head.filter.trace = [] ∧ submittedReads head.filter.trace = [] := by
  have hsome : ((replayed mixedActions).bind fun s => s.streams[0]?.bind fun get =>
      s.streams[1]?.bind fun head => get.filter.answer.bind fun _ =>
        head.filter.answer).isSome = true := by
    decide
  obtain ⟨call', hcall⟩ := Option.isSome_iff_exists.mp hsome
  obtain ⟨s, hs, hcall⟩ := Option.bind_eq_some_iff.mp hcall
  obtain ⟨get, hget, hcall⟩ := Option.bind_eq_some_iff.mp hcall
  obtain ⟨head, hhead, hcall⟩ := Option.bind_eq_some_iff.mp hcall
  obtain ⟨call, hanswer, hanswer'⟩ := Option.bind_eq_some_iff.mp hcall
  have hrun := mixedActions_allowed hs
  exact ⟨s, get, head, call, call', hs, hget, hhead, hanswer, hanswer',
    server_head_mirrors_get (by decide) (by decide) hrun (by decide) hrun hget hanswer hhead
      hanswer' ⟨[], _, fun _ hmem => absurd hmem List.not_mem_nil, rfl, rfl⟩⟩

theorem server_completes_shared :
    ∃ s stream, sharedRun = some s ∧ s.streams[1]? = some stream ∧
      stream.filter.phase = .done ∧ ∃ call, stream.filter.answer = some call ∧
        Replies Crates.plain (Config.defaults ⟨"/srv"⟩)
          (smallSite.store (Config.defaults ⟨"/srv"⟩)) (getHeaders "/a")
          ⟨call, sentBytes stream.filter.trace⟩ := by
  have hended : (sharedRun.bind fun s => s.streams[1]?).map
      (fun stream => stream.filter.phase.stage) = some .ended := by
    decide
  obtain ⟨stream, hstream, hstage⟩ := Option.map_eq_some_iff.mp hended
  obtain ⟨s, hs, hstream⟩ := Option.bind_eq_some_iff.mp hstream
  have hdone : stream.filter.phase = .done := by
    cases hphase : stream.filter.phase with
    | done => rfl
    | _ =>
        rw [hphase] at hstage
        cases hstage
  exact ⟨s, stream, hs, hstream, hdone,
    server_completes (by decide) (fun _ hfault => hfault) (by decide) (sharedRun_allowed hs)
      hstream hdone⟩

/-- Both streams have been served, and their handles are dropped. -/
def servedActions : List Action :=
  [.dropInner 0, .dropInner 0]

theorem server_serves_all_shared :
    ∃ s stream, ServerRun Crates.plain (Config.defaults ⟨"/srv"⟩)
        (smallSite.allows fun _ => getHeaders "/a") initial (sharedActions ++ servedActions) s ∧
      Quiescent s ∧ s.streams[0]? = some stream ∧ ∃ call, stream.filter.answer = some call ∧
        Replies Crates.plain (Config.defaults ⟨"/srv"⟩)
          (smallSite.store (Config.defaults ⟨"/srv"⟩)) (getHeaders "/a")
          ⟨call, sentBytes stream.filter.trace⟩ := by
  have hfacts : (sharedRun.bind fun u => (servedActions.foldlM
      (step Crates.plain (Config.defaults ⟨"/srv"⟩)) u).bind fun s =>
        s.streams[0]?.map fun stream =>
          (s.reactor.running && s.reactor.submitting.isEmpty && s.reactor.dropping.isEmpty &&
            s.reactor.commands.isEmpty && s.reactor.opening.isEmpty && s.reactor.reading.isEmpty &&
            s.reactor.listing.isEmpty && s.streams.all fun stream => stream.submits.isEmpty,
            stream.filter.complete, stream.filter.phase.stage,
            stream.filter.delivering + stream.filter.commits)) =
      some (true, false, .ended, 0) := by
    decide
  obtain ⟨u, hu, hfacts⟩ := Option.bind_eq_some_iff.mp hfacts
  obtain ⟨s, hs, hfacts⟩ := Option.bind_eq_some_iff.mp hfacts
  obtain ⟨stream, hstream, hfacts⟩ := Option.map_eq_some_iff.mp hfacts
  simp only [Prod.mk.injEq, Bool.and_eq_true, List.isEmpty_iff, List.all_eq_true] at hfacts
  obtain ⟨⟨⟨⟨⟨⟨⟨⟨hrunning, hsubmitting⟩, hdropping⟩, hcommands⟩, hopening⟩, hreading⟩, hlisting⟩,
    hsubmits⟩, hactive, hstage, hwoken⟩ := hfacts
  have hquiet : Quiescent s :=
    ⟨⟨hsubmitting, hdropping, fun _ => hcommands, hopening, hreading, hlisting⟩, hsubmits⟩
  have hrest : ServerRun Crates.plain (Config.defaults ⟨"/srv"⟩)
      (smallSite.allows fun _ => getHeaders "/a") u servedActions s := by
    have hplain : ServerRun Crates.plain (Config.defaults ⟨"/srv"⟩) (fun _ _ => True) u
        servedActions s := Transition.Run.of_foldlM (fun _ _ => trivial) hs
    refine hplain.mono_of_mem ?_
    intro w action haction _
    simp only [servedActions, List.mem_cons, List.not_mem_nil, or_self, or_false] at haction
    rw [haction]
    trivial
  have hrun := (sharedRun_allowed hu).append hrest
  refine ⟨s, stream, hrun, hquiet, hstream, server_serves_all (by decide) (by decide)
    (fun _ hfault => hfault) (by decide) hrun hrunning hquiet hstream hactive ?_ hwoken ?_⟩
  · intro hidle
    rw [hidle] at hstage
    cases hstage
  · intro st hst
    rw [hst] at hstage
    cases hstage

end Server

end EnvoyFiles
