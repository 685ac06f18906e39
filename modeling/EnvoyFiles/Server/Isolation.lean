import EnvoyFiles.Io.Containment
import EnvoyFiles.Server.Accounts

/-!
# Streams that share an engine

On a filesystem that does not change, a stream of a server cannot tell that other streams
use its engine: what it goes through is a run of that stream alone, in which one regular
file at most opens and every read is one of that file.
-/

namespace EnvoyFiles

open Filter

/-- What a server runs on: a filesystem that does not change, what reading its directories
gives, and the errors that its reads may have. -/
structure Site where
  os : Os
  readsFiles : os.ReadsFiles
  lists : PathBuf → ReadDirResult
  fault : IoError → Prop

namespace Site

/-- The bytes of the regular file at a location. -/
def content (site : Site) (location : Location) : Bytes :=
  match site.os.tree location with
  | some (.file file) => file.content
  | _ => []

/-- The environment of one request whose regular file, if one opens, is that at the location
and has got the handle. -/
def serves (site : Site) (headers : List (Bytes × Bytes)) (handle : FileHandle)
    (location : Location) : Env where
  requests h := h = headers
  completes _ op completion :=
    match op, completion with
    | .openStat request _, .openStat result =>
        ∃ id state, id ≠ 0 ∧ Engine.CacheSound site.os state.canonCache ∧
          result = openResult (Engine.openStat site.os id request state).1 ∧
          ∀ opened, (Engine.openStat site.os id request state).1 = .ok opened →
            opened.stat.isDir = false → opened.handle = handle ∧ opened.file = location
    | .read handle' offset len _, .read (.ok data) =>
        handle'.id ≠ 0 ∧ data = fileSlice (site.content location) offset len
    | .read handle' _ _ _, .read (.error error) => handle'.id = 0 ∨ site.fault error
    | .readDir path, .readDir result => result = site.lists path
    | _, _ => False

/-- What a server may meet, where stream `i` is asked for `requests i`. -/
def allows (site : Site) (requests : ℕ → List (Bytes × Bytes)) (s : Server) :
    Server.Action → Prop
  | .callback index (.requestHeaders headers _) => headers = requests index
  | .finishOpen _ os _ => os = site.os
  | .finishRead index reply =>
      ∀ task onDone file, s.reactor.reading[index]? = some (task, onDone) →
        task.file = some file → ∀ call position want,
          Engine.Replies (site.content file.location) position want (reply call position want) ∧
          ∀ error, reply call position want = .error error → site.fault error
  | .finishReadDir index result =>
      ∀ path onDone, s.reactor.listing[index]? = some (path, onDone) → result = site.lists path
  | _ => True

end Site

/-! ## Reads -/

namespace Engine

section Reads

variable {content buf : Bytes} {offset len : ℕ}
  {reply : ℕ → ℕ → ℕ → Except IoError Bytes} {fault : IoError → Prop}

/-- The errors of the loop are those of its reads. -/
theorem readRestCalls_fault (made : ℕ) {error : IoError}
    (hfault : ∀ call position want error, reply call position want = .error error → fault error)
    (h : (readRestCalls reply offset len made buf).2 = .error error) : fault error := by
  fun_induction readRestCalls reply offset len made buf with
  | case1 made buf _ want position error' herror =>
      cases h
      exact hfault _ _ _ _ herror
  | case2 made buf _ want position more _ _ => cases h
  | case3 made buf _ want position more _ _ calls result hrun ih =>
      rw [hrun] at ih
      exact ih h
  | case4 made buf _ => cases h

/-- A read of a file returns a fault or the asked part. -/
theorem readAtCalls_cases
    (hreply : ∀ call position want, Replies content position want (reply call position want))
    (hfault : ∀ call position want error, reply call position want = .error error →
      fault error) :
    (∃ error, (readAtCalls reply offset len).2 = .error error ∧ fault error) ∨
      (readAtCalls reply offset len).2 = .ok (fileSlice content offset len) := by
  have hanswer := hreply 0 offset len
  rw [readAtCalls]
  cases hfirst : reply 0 offset len with
  | error error => exact Or.inl ⟨error, rfl, hfault _ _ _ _ hfirst⟩
  | ok first =>
      rw [hfirst] at hanswer
      dsimp only
      split
      · next hend =>
          right
          dsimp only
          rw [fileSlice]
          rcases hend with hwhole | hnone
          · rw [part_complete hanswer.part]
            rw [hwhole, Nat.sub_self, List.take_zero]
          · rw [hanswer.eof hnone, List.length_eq_zero_iff.mp hnone]
      · rcases readRestCalls_spec 1 hreply hanswer.part with ⟨error, hresult, -⟩ | hresult
        · exact Or.inl ⟨error, hresult, readRestCalls_fault 1 hfault hresult⟩
        · exact Or.inr hresult

end Reads

end Engine

namespace Server

/-! ## One stream -/

/-- Every handle and every read of a stream is of the file at the location. -/
structure ReadsAt (reactor : Reactor OnDone) (index : ℕ) (location : Location) : Prop where
  handles : ∀ entry ∈ reactor.handles, entry.2.stream = index →
    entry.1.file.location = location
  jobs : ∀ handle offset len onDone, .read handle offset len onDone ∈ reactor.jobs →
    onDone.stream = index → handle.file.location = location

/-- A stream has run as if it were alone.  Until its regular file opens, it does not matter
which one that is. -/
inductive Served (crates : Crates) (cfg : Config) (site : Site)
    (requests : ℕ → List (Bytes × Bytes)) (reactor : Reactor OnDone) (index : ℕ)
    (filter : State) : Prop where
  | unopened : Unopened filter →
      (∀ handle location, ∃ actions, StreamRun crates cfg
        (site.serves (requests index) handle location) State.initial actions filter) →
      Served crates cfg site requests reactor index filter
  | reads {handle : FileHandle} {location : Location} : ReadsFrom handle filter →
      (∃ actions, StreamRun crates cfg
        (site.serves (requests index) handle location) State.initial actions filter) →
      ReadsAt reactor index location →
      Served crates cfg site requests reactor index filter

/-- Every stream of a server has run as if it were alone. -/
structure Isolated (crates : Crates) (cfg : Config) (site : Site)
    (requests : ℕ → List (Bytes × Bytes)) (s : Server) : Prop where
  cache : Engine.CacheSound site.os s.reactor.canonCache
  streams : ∀ index stream, s.streams[index]? = some stream →
    Served crates cfg site requests s.reactor index stream.filter

section Streams

variable {crates : Crates} {cfg : Config} {site : Site}
  {requests : ℕ → List (Bytes × Bytes)} {reactor reactor' : Reactor OnDone} {index : ℕ}
  {filter filter' : State} {location : Location}

theorem ReadsAt.mono (h : ReadsAt reactor index location)
    (hhandles : ∀ entry ∈ reactor'.handles, entry.2.stream = index → entry ∈ reactor.handles)
    (hjobs : ∀ job ∈ reactor'.jobs, job.onDone.stream = index → job ∈ reactor.jobs) :
    ReadsAt reactor' index location where
  handles entry hentry hindex := h.handles entry (hhandles entry hentry hindex) hindex
  jobs handle offset len onDone hjob hindex :=
    h.jobs handle offset len onDone (hjobs _ hjob hindex) hindex

theorem Served.mono (h : Served crates cfg site requests reactor index filter)
    (hhandles : ∀ entry ∈ reactor'.handles, entry.2.stream = index → entry ∈ reactor.handles)
    (hjobs : ∀ job ∈ reactor'.jobs, job.onDone.stream = index → job ∈ reactor.jobs) :
    Served crates cfg site requests reactor' index filter := by
  cases h with
  | unopened hunopened hruns => exact .unopened hunopened hruns
  | reads hreads hrun hfile => exact .reads hreads hrun (hfile.mono hhandles hjobs)

theorem served_initial : Served crates cfg site requests reactor index State.initial :=
  .unopened unopened_initial fun _ _ => ⟨[], .nil _⟩

/-- A callback that is allowed to a stream is allowed to it alone. -/
theorem serves_allows {handle : FileHandle} {action : Filter.Action}
    (hcallback : action.isCallback = true)
    (hrequest : ∀ headers reentry, action = .requestHeaders headers reentry →
      headers = requests index) :
    (site.serves (requests index) handle location).allows filter action := by
  cases action with
  | requestHeaders headers reentry => exact hrequest headers reentry rfl
  | complete position completion => cases hcallback
  | _ => trivial

/-- A callback of the stream. -/
theorem Served.callback (h : Served crates cfg site requests reactor index filter)
    {action : Filter.Action} (hbatch : filter.batch = []) (hcallback : action.isCallback = true)
    (hrequest : ∀ headers reentry, action = .requestHeaders headers reentry →
      headers = requests index)
    (hstep : Filter.step crates cfg filter action = some filter') :
    Served crates cfg site requests reactor index filter' := by
  cases h with
  | unopened hunopened hruns =>
      refine .unopened ?_ fun handle location => ?_
      · exact callback_invariant (fun _ _ => silent_unopened) hcallback hbatch hstep hunopened
      · obtain ⟨actions, hrun⟩ := hruns handle location
        exact ⟨actions ++ [action],
          hrun.append (.single (serves_allows hcallback hrequest) hstep)⟩
  | @reads handle location hreads hrun hfile =>
      refine .reads (?_ : ReadsFrom handle filter') ?_ hfile
      · exact callback_invariant (fun _ _ => silent_readsFrom) hcallback hbatch hstep hreads
      · obtain ⟨actions, hrun⟩ := hrun
        exact ⟨actions ++ [action],
          hrun.append (.single (serves_allows hcallback hrequest) hstep)⟩

/-- A run goes on with the completion of a pending operation. -/
theorem run_complete {env : Env} {actions : List Filter.Action} {op : Op}
    {completion : Completion} {event : IoEvent}
    (hrun : StreamRun crates cfg env State.initial actions filter) (hop : op ∈ filter.pending)
    (hevent : op.onDone completion = some event) (hok : env.completes filter op completion) :
    ∃ actions, StreamRun crates cfg env State.initial actions
      (deliver { filter with pending := filter.pending.erase op } event) := by
  have hstep : Filter.step crates cfg filter
      (.complete (filter.pending.idxOf op) completion) =
        some (deliver { filter with pending := filter.pending.erase op } event) :=
    completeOp_erase hop hevent
  refine ⟨_, hrun.append (.single ?_ hstep)⟩
  intro other hother
  rw [List.getElem?_idxOf hop] at hother
  cases hother
  exact hok

/-- The end of an open of the stream, with what the stream holds and reads behind it. -/
theorem Served.opened (h : Served crates cfg site requests reactor index filter)
    (halone : OpensAlone filter) (hbatch : filter.batch = []) {request : OpenRequest}
    {ctx : OpenCtx} (hop : .openStat request ctx ∈ filter.pending) {id : ℕ} {state : EngineState}
    (hid : id ≠ 0) (hcache : Engine.CacheSound site.os state.canonCache) {event : IoEvent}
    (hevent : (Op.openStat request ctx).onDone
      (.openStat (openResult (Engine.openStat site.os id request state).1)) = some event)
    (hhandles : ∀ entry ∈ reactor'.handles, entry.2.stream = index → ∃ opened,
      (Engine.openStat site.os id request state).1 = .ok opened ∧
        entry.1.file.location = opened.file)
    (hjobs : ∀ handle offset len onDone, .read handle offset len onDone ∈ reactor'.jobs →
      onDone.stream ≠ index) :
    Served crates cfg site requests reactor' index
      (deliver { filter with pending := filter.pending.erase (.openStat request ctx) } event) := by
  cases h with
  | reads hreads _ _ => cases hreads.opens _ hop
  | unopened hunopened hruns =>
      obtain ⟨before, after, -, hpending, herase⟩ := List.exists_erase_eq hop
      have hcontinue (handle : FileHandle) (location : Location)
          (hfile : ∀ opened, (Engine.openStat site.os id request state).1 = .ok opened →
            opened.stat.isDir = false → opened.handle = handle ∧ opened.file = location) :
          ∃ actions, StreamRun crates cfg (site.serves (requests index) handle location)
            State.initial actions (deliver
              { filter with pending := filter.pending.erase (.openStat request ctx) } event) := by
        obtain ⟨actions, hrun⟩ := hruns handle location
        exact run_complete hrun hop hevent ⟨id, state, hid, hcache, rfl, hfile⟩
      cases hfile : event.file with
      | none =>
          refine .unopened ?_ fun handle location => hcontinue handle location ?_
          · rw [herase]
            exact hunopened.complete hpending hevent hfile
          · intro opened hopen hregular
            rw [hopen] at hevent
            cases hevent
            rw [IoEvent.file, hregular] at hfile
            cases hfile
      | some handle =>
          cases hopen : (Engine.openStat site.os id request state).1 with
          | error error =>
              rw [hopen] at hevent
              cases hevent
              cases hfile
          | ok opened =>
              rw [hopen] at hhandles hcontinue
              have hhandle : opened.handle = handle := by
                rw [hopen] at hevent
                cases hevent
                rw [IoEvent.file] at hfile
                split at hfile
                · cases hfile
                · exact Option.some.inj hfile
              refine .reads (?_ : ReadsFrom handle _) (hcontinue handle opened.file ?_) ⟨?_, ?_⟩
              · rw [herase]
                exact halone.opens hbatch hpending hevent hfile
              · rintro _ ⟨⟩ -
                exact ⟨hhandle, rfl⟩
              · intro entry hentry hindex
                obtain ⟨_, ⟨⟩, hlocation⟩ := hhandles entry hentry hindex
                exact hlocation
              · intro other offset len onDone hjob hindex
                exact absurd hindex (hjobs other offset len onDone hjob)

/-- The end of a read of the stream. -/
theorem Served.read (h : Served crates cfg site requests reactor index filter)
    {handle : FileHandle} {offset len seq : ℕ} (hop : .read handle offset len seq ∈ filter.pending)
    {result : ReadResult}
    (hresult : ∀ held location, ReadsAt reactor index location →
      (site.serves (requests index) held location).completes filter
        (.read handle offset len seq) (.read result)) :
    Served crates cfg site requests reactor index (deliver
      { filter with pending := filter.pending.erase (.read handle offset len seq) }
      (.read seq result)) := by
  cases h with
  | unopened hunopened _ => cases hunopened.pending _ hop
  | @reads held location hreads hrun hfile =>
      obtain ⟨before, after, -, hpending, herase⟩ := List.exists_erase_eq hop
      obtain ⟨actions, hrun⟩ := hrun
      have hevent : (Op.read handle offset len seq).onDone (.read result) =
          some (.read seq result) := rfl
      refine .reads (?_ : ReadsFrom held _) (run_complete hrun hop hevent ?_) hfile
      · rw [herase]
        exact hreads.complete hpending hevent
      · exact hresult held location hfile

/-- The end of a directory read of the stream. -/
theorem Served.readDir (h : Served crates cfg site requests reactor index filter)
    {path : PathBuf} (hop : .readDir path ∈ filter.pending) :
    Served crates cfg site requests reactor index (deliver
      { filter with pending := filter.pending.erase (.readDir path) }
      (.dir (site.lists path))) := by
  obtain ⟨before, after, -, hpending, herase⟩ := List.exists_erase_eq hop
  have hevent : (Op.readDir path).onDone (.readDir (site.lists path)) =
      some (.dir (site.lists path)) := rfl
  cases h with
  | unopened hunopened hruns =>
      refine .unopened ?_ fun handle location => ?_
      · rw [herase]
        exact hunopened.complete hpending hevent rfl
      · obtain ⟨actions, hrun⟩ := hruns handle location
        exact run_complete hrun hop hevent rfl
  | @reads held location hreads hrun hfile =>
      obtain ⟨actions, hrun⟩ := hrun
      refine .reads (?_ : ReadsFrom held _) (run_complete hrun hop hevent rfl) hfile
      rw [herase]
      exact hreads.complete hpending hevent

end Streams

/-! ## Steps -/

section Steps

variable {crates : Crates} {cfg : Config} {site : Site}
  {requests : ℕ → List (Bytes × Bytes)} {n : ℕ} {s t : Server} {index : ℕ}
  {reactor : Reactor OnDone}

/-- A step that leaves the filters as they are, or adds one, and adds no handle and no
read. -/
theorem Isolated.frame (h : Isolated crates cfg site requests s)
    (hcache : t.reactor.canonCache = s.reactor.canonCache)
    (hhandles : ∀ entry ∈ t.reactor.handles, entry ∈ s.reactor.handles)
    (hjobs : ∀ handle offset len onDone, .read handle offset len onDone ∈ t.reactor.jobs →
      .read handle offset len onDone ∈ s.reactor.jobs)
    (hstreams : ∀ (i : ℕ) (stream : Stream), t.streams[i]? = some stream →
      stream.filter = State.initial ∨
        ∃ stream' : Stream, s.streams[i]? = some stream' ∧ stream.filter = stream'.filter) :
    Isolated crates cfg site requests t where
  cache := hcache ▸ h.cache
  streams index stream hstream := by
    rcases hstreams index stream hstream with hinitial | ⟨stream', hstream', hsame⟩
    · rw [hinitial]
      exact served_initial
    · rw [hsame]
      cases h.streams index stream' hstream' with
      | unopened hunopened hruns => exact .unopened hunopened hruns
      | reads hreads hrun hfile =>
          refine .reads hreads hrun ⟨fun entry hentry => hfile.handles entry (hhandles _ hentry),
            fun handle offset len onDone hjob => ?_⟩
          exact hfile.jobs handle offset len onDone (hjobs _ _ _ _ hjob)

/-- The streams behind a change of one of them. -/
theorem getElem?_set_cases {streams : List Stream} {stream stream' other : Stream} {i : ℕ}
    (hstream : streams[index]? = some stream)
    (h : (streams.set index stream')[i]? = some other) :
    i = index ∧ other = stream' ∨ i ≠ index ∧ streams[i]? = some other := by
  obtain ⟨hlt, -⟩ := List.getElem?_eq_some_iff.mp hstream
  by_cases hindex : i = index
  · subst hindex
    rw [List.getElem?_set_self hlt] at h
    exact Or.inl ⟨rfl, (Option.some.inj h).symm⟩
  · rw [List.getElem?_set_ne (Ne.symm hindex)] at h
    exact Or.inr ⟨hindex, h⟩

/-- A stream that changes without its filter. -/
theorem same_filters {stream stream' : Stream} (hstream : s.streams[index]? = some stream)
    (hfilter : stream'.filter = stream.filter) (i : ℕ) (other : Stream)
    (h : (s.streams.set index stream')[i]? = some other) :
    other.filter = State.initial ∨
      ∃ stream'', s.streams[i]? = some stream'' ∧ other.filter = stream''.filter := by
  right
  rcases getElem?_set_cases hstream h with ⟨rfl, rfl⟩ | ⟨-, hother⟩
  · exact ⟨stream, hstream, hfilter⟩
  · exact ⟨other, hother, rfl⟩

theorem same_streams (i : ℕ) (stream : Stream) (h : s.streams[i]? = some stream) :
    stream.filter = State.initial ∨
      ∃ stream', s.streams[i]? = some stream' ∧ stream.filter = stream'.filter :=
  Or.inr ⟨stream, h, rfl⟩

theorem Isolated.newStream (h : Isolated crates cfg site requests s) :
    Isolated crates cfg site requests s.newStream := by
  refine h.frame rfl (fun _ hentry => hentry) (fun _ _ _ _ hjob => hjob) ?_
  intro index stream hstream
  rcases Nat.lt_or_ge index s.streams.length with hlt | hge
  · rw [Server.newStream, List.getElem?_append_left hlt] at hstream
    exact same_streams index stream hstream
  · rw [Server.newStream, List.getElem?_append_right hge] at hstream
    rw [List.mem_singleton.mp (List.mem_of_getElem? hstream)]
    exact Or.inl rfl

theorem release_handles {held : HandleInner × OnDone → Bool} :
    ∀ entry ∈ (reactor.release held).handles, entry.2.stream = index → entry ∈ reactor.handles :=
  fun _ hentry _ => (List.mem_filter.mp hentry).1

theorem Isolated.callback (h : Isolated crates cfg site requests s)
    (hsound : Sound crates cfg n s) {action : Filter.Action}
    (hok : site.allows requests s (.callback index action))
    (hstep : s.callback crates cfg index action = some t) :
    Isolated crates cfg site requests t := by
  obtain ⟨stream, filter, hstream, hcallback, -, hfilter, rfl⟩ := callback_cases hstep
  obtain ⟨actions, hrun⟩ := (hsound.streams index stream hstream).run
  obtain ⟨-, -, hbatch⟩ := run_opensAlone hrun
  refine ⟨h.cache, fun i other hother => ?_⟩
  rcases getElem?_set_cases hstream hother with ⟨rfl, rfl⟩ | ⟨-, hother⟩
  · refine Served.mono ?_ release_handles fun _ hjob _ => hjob
    refine (h.streams i stream hstream).callback hbatch hcallback ?_ hfilter
    rintro headers reentry rfl
    exact hok
  · exact (h.streams i other hother).mono release_handles fun _ hjob _ => hjob

theorem Isolated.claimId (h : Isolated crates cfg site requests s)
    (hstep : s.claimId index = some t) : Isolated crates cfg site requests t := by
  obtain ⟨stream, hstream, hnext⟩ := Option.bind_eq_some_iff.mp hstep
  split at hnext
  · next request ctx submits _ =>
      cases hnext
      refine h.frame rfl (fun _ hentry => hentry) (fun handle offset len onDone hjob => ?_)
        (same_filters hstream rfl)
      have hcons := Reactor.claimId_jobs s.reactor request ⟨index, .openStat request ctx⟩
      dsimp only at hjob
      rw [hcons] at hjob
      rcases Multiset.mem_cons.mp hjob with hopen | hearlier
      · cases hopen
      · exact hearlier
  · cases hnext

theorem Isolated.submit (h : Isolated crates cfg site requests s)
    (hstep : s.submit index = some t) : Isolated crates cfg site requests t := by
  obtain ⟨stream, hstream, hnext⟩ := Option.bind_eq_some_iff.mp hstep
  split at hnext
  · next handle offset len seq submits _ =>
      obtain ⟨position, hfind, hnext⟩ := Option.bind_eq_some_iff.mp hnext
      obtain ⟨reactor, hread, hnext⟩ := Option.bind_eq_some_iff.mp hnext
      cases hnext
      obtain ⟨entry, hentry, hposted⟩ := Option.bind_eq_some_iff.mp hread
      obtain ⟨howner, -⟩ := ownHandle_found hfind hentry
      cases hposted
      let command : Posted OnDone := .read entry.1 offset len ⟨index, .read handle offset len seq⟩
      obtain ⟨commands, heq⟩ := s.reactor.post_eq command
      have hhandles : (s.reactor.post command).handles = s.reactor.handles := by rw [heq]
      refine ⟨?_, fun i other hother => ?_⟩
      · show Engine.CacheSound site.os (s.reactor.post command).canonCache
        rw [heq]
        exact h.cache
      · have hserved : Served crates cfg site requests s.reactor i other.filter := by
          rcases getElem?_set_cases hstream hother with ⟨rfl, rfl⟩ | ⟨-, hother⟩
          · exact h.streams i stream hstream
          · exact h.streams i other hother
        cases hserved with
        | unopened hunopened hruns => exact .unopened hunopened hruns
        | reads hreads hrun hfile =>
            refine .reads hreads hrun ⟨fun entry hentry => ?_, fun inner off len onDone hjob => ?_⟩
            · exact hfile.handles entry (hhandles ▸ hentry)
            · intro hindex
              rcases Reactor.mem_post_jobs hjob with hnew | hearlier
              · cases hnew
                exact hfile.handles entry (List.mem_of_getElem? hentry) (howner.trans hindex)
              · exact hfile.jobs inner off len onDone hearlier hindex
  · next path submits _ =>
      cases hnext
      let command : Posted OnDone := .readDir path ⟨index, .readDir path⟩
      obtain ⟨commands, heq⟩ := s.reactor.post_eq command
      have hreactor : s.reactor.readDir path ⟨index, .readDir path⟩ =
          { s.reactor with commands } := heq
      refine h.frame (by rw [hreactor]) (fun entry hentry => ?_)
        (fun handle offset len onDone hjob => ?_) (same_filters hstream rfl)
      · dsimp only at hentry
        rw [hreactor] at hentry
        exact hentry
      · rcases Reactor.mem_post_jobs hjob with hnew | hearlier
        · cases hnew
        · exact hearlier
  · cases hnext

theorem Isolated.sendOpen (h : Isolated crates cfg site requests s)
    (hstep : s.sendOpen index = some t) : Isolated crates cfg site requests t := by
  obtain ⟨reactor, hsubmit, hnext⟩ := Option.bind_eq_some_iff.mp hstep
  cases hnext
  obtain ⟨item, -, hposted⟩ := Option.bind_eq_some_iff.mp hsubmit
  obtain ⟨commands, heq⟩ := Reactor.post_eq
    { s.reactor with submitting := s.reactor.submitting.eraseIdx index }
    (.openStat item.1.1 item.1.2 item.2)
  have hreactor := (Option.some.inj hposted).symm.trans heq
  refine h.frame (by rw [hreactor]) (fun entry hentry => ?_) (fun _ _ _ _ hjob => ?_) same_streams
  · dsimp only at hentry
    rw [hreactor] at hentry
    exact hentry
  · exact Multiset.mem_of_le (Reactor.submitOpen_jobs_le hsubmit) hjob

theorem Isolated.dropInner (h : Isolated crates cfg site requests s)
    (hstep : s.dropInner index = some t) : Isolated crates cfg site requests t := by
  obtain ⟨reactor, hdrop, hnext⟩ := Option.bind_eq_some_iff.mp hstep
  cases hnext
  have hframe : reactor.canonCache = s.reactor.canonCache ∧
      reactor.handles = s.reactor.handles := by
    obtain ⟨inner, -, hposted⟩ := Option.bind_eq_some_iff.mp hdrop
    obtain ⟨commands, heq⟩ := Reactor.post_eq
      { s.reactor with dropping := s.reactor.dropping.eraseIdx index } (.close inner)
    rw [← Option.some.inj hposted, heq]
    split <;> exact ⟨rfl, rfl⟩
  refine h.frame hframe.1 (fun _ hentry => hframe.2 ▸ hentry) (fun _ _ _ _ hjob => ?_) same_streams
  exact Reactor.dropInner_jobs hdrop ▸ hjob

theorem Isolated.destroy (h : Isolated crates cfg site requests s)
    (hstep : s.destroy index = some t) : Isolated crates cfg site requests t := by
  obtain ⟨stream, hstream, hnext⟩ := Option.bind_eq_some_iff.mp hstep
  split at hnext
  · cases hnext
    exact h.frame rfl (fun _ hentry => (List.mem_filter.mp hentry).1)
      (fun _ _ _ _ hjob => hjob) (same_filters hstream rfl)
  · cases hnext

theorem Isolated.shutdown (h : Isolated crates cfg site requests s) :
    Isolated crates cfg site requests { s with reactor := s.reactor.shutdown } := by
  have hjobs : s.reactor.shutdown.jobs = s.reactor.jobs := Reactor.post_jobs_none rfl
  obtain ⟨commands, heq⟩ := s.reactor.post_eq .shutdown
  have hshutdown : s.reactor.shutdown = { s.reactor with commands } := heq
  refine h.frame (by rw [hshutdown]) (fun entry hentry => ?_) (fun _ _ _ _ hjob => hjobs ▸ hjob)
    same_streams
  dsimp only at hentry
  rw [hshutdown] at hentry
  exact hentry

theorem Isolated.takeCommand (h : Isolated crates cfg site requests s)
    (hstep : s.takeCommand = some t) : Isolated crates cfg site requests t := by
  obtain ⟨reactor, htake, hnext⟩ := Option.bind_eq_some_iff.mp hstep
  cases hnext
  obtain ⟨hhandles, hcache⟩ := Reactor.takeCommand_frame htake
  exact h.frame hcache (fun _ hentry => hhandles ▸ hentry)
    (fun _ _ _ _ hjob => Multiset.mem_of_le (Reactor.takeCommand_jobs_le htake) hjob) same_streams

/-- The end of a task is nothing to the other streams. -/
theorem Isolated.finish (h : Isolated crates cfg site requests s) {job : Job OnDone}
    (hjobs : s.reactor.jobs = job ::ₘ reactor.jobs)
    (hcache : Engine.CacheSound site.os reactor.canonCache)
    (hhandles : ∀ entry ∈ reactor.handles, entry.2.stream ≠ index → entry ∈ s.reactor.handles)
    {stream stream' : Stream} (hstream : s.streams[index]? = some stream)
    (hself : Served crates cfg site requests
      (reactor.release (holds index stream'.held)) index stream'.filter) :
    Isolated crates cfg site requests (Server.setStream { s with reactor } index stream') := by
  refine ⟨hcache, fun i other hother => ?_⟩
  rcases getElem?_set_cases hstream hother with ⟨rfl, rfl⟩ | ⟨hindex, hother⟩
  · exact hself
  · refine (h.streams i other hother).mono (fun entry hentry howner => ?_) fun job hjob _ => ?_
    · exact hhandles entry (List.mem_filter.mp hentry).1 (howner ▸ hindex)
    · exact hjobs ▸ Multiset.mem_cons_of_mem hjob

/-- What the engine keeps for a stream that waits for an open alone. -/
theorem Sound.handlesOf_opening (h : Sound crates cfg n s) {stream : Stream} {op : Op}
    (hstream : s.streams[index]? = some stream) (hop : op ∈ stream.filter.pending)
    (hopen : op.isOpen = true) :
    ∀ entry ∈ s.reactor.handles, entry.2.stream ≠ index := by
  intro entry hentry howner
  have hsound := h.streams index stream hstream
  obtain ⟨actions, hrun⟩ := hsound.run
  have hheld : stream.held = [] := by
    rw [Stream.held, (run_held hrun).2 op hop hopen]
    split <;> rfl
  have hnone := hsound.handles
  rw [hheld, Multiset.coe_nil, Multiset.coe_eq_zero] at hnone
  have hmem : (⟨entry.1.id⟩ : FileHandle) ∈ handlesOf s.reactor.handles index :=
    List.mem_map.mpr ⟨entry, List.mem_filter.mpr ⟨hentry, decide_eq_true howner⟩, rfl⟩
  rw [hnone] at hmem
  cases hmem

theorem Isolated.finishOpen (h : Isolated crates cfg site requests s)
    (hsound : Sound crates cfg n s) (hrunning : s.reactor.running = true) {descriptor : ℕ}
    (hstep : s.finishOpen index site.os descriptor = some t) :
    Isolated crates cfg site requests t := by
  obtain ⟨⟨reactor, onDone, result⟩, hfinish, hnext⟩ := Option.bind_eq_some_iff.mp hstep
  obtain ⟨stream, event, hstream, hevent, rfl⟩ := runCallback_cases hnext
  obtain ⟨id, request, hopening, hresult, hcache, hjobs⟩ := Reactor.finishOpen_jobs hfinish
  have hjob : .openStat id request onDone ∈ s.reactor.jobs := hjobs ▸ Multiset.mem_cons_self _ _
  obtain ⟨ctx, hop⟩ := (hsound.jobs _ hjob).2
  change onDone.op = _ at hop
  have hpending := hsound.job_pending hrunning hjob hstream
  change onDone.op ∈ _ at hpending
  obtain ⟨actions, hrun⟩ := (hsound.streams _ stream hstream).run
  obtain ⟨-, halone, hbatch⟩ := run_opensAlone hrun
  have hid : id ≠ 0 :=
    (hsound.exact hrunning).ids_pos (List.mem_of_getElem? (Reactor.getElem?_fst hopening))
  have hisOpen : onDone.op.isOpen = true := by
    rw [hop]
    rfl
  have hnone := hsound.handlesOf_opening hstream hpending hisOpen
  have hothers := hsound.job_alone hrunning hjobs hstream (halone.alone _ hpending hisOpen).1
  have hhandles : ∀ entry ∈ reactor.handles, entry ∈ s.reactor.handles ∨
      entry.2 = onDone ∧ ∃ opened, result = .ok opened ∧
        entry.1.file.location = opened.file := by
    obtain ⟨-, ⟨error, -, hsame⟩ | ⟨opened, hopened, hmore⟩⟩ := Reactor.finishOpen_handles hfinish
    · exact fun entry hentry => Or.inl (hsame ▸ hentry)
    · intro entry hentry
      rw [hmore] at hentry
      rcases List.mem_append.mp hentry with hearlier | hnew
      · exact Or.inl hearlier
      · rw [List.mem_singleton.mp hnew]
        exact Or.inr ⟨rfl, opened, hopened, rfl⟩
  refine h.finish hjobs ?_ (fun entry hentry howner => ?_) hstream ?_
  · rw [hcache]
    exact Engine.openStat_sound h.cache
  · rcases hhandles entry hentry with hearlier | ⟨hnew, -⟩
    · exact hearlier
    · exact absurd (congrArg OnDone.stream hnew) howner
  · dsimp only
    rw [hop] at hpending hevent ⊢
    refine (h.streams _ stream hstream).opened halone hbatch hpending hid h.cache
      (hresult ▸ hevent) (fun entry hentry howner => ?_) (fun handle offset len other hother => ?_)
    · rcases hhandles entry (List.mem_filter.mp hentry).1 with hearlier | ⟨-, hopened⟩
      · exact absurd howner (hnone entry hearlier)
      · exact hresult ▸ hopened
    · exact hothers _ hother

theorem Isolated.finishRead (h : Isolated crates cfg site requests s)
    (hsound : Sound crates cfg n s) (hrunning : s.reactor.running = true)
    {reply : ℕ → ℕ → ℕ → Except IoError Bytes}
    (hok : site.allows requests s (.finishRead index reply))
    (hstep : s.finishRead index reply = some t) :
    Isolated crates cfg site requests t := by
  obtain ⟨⟨reactor, onDone, result⟩, hfinish, hnext⟩ := Option.bind_eq_some_iff.mp hstep
  obtain ⟨stream, event, hstream, hevent, rfl⟩ := runCallback_cases hnext
  obtain ⟨task, htask, hjobs, hresult⟩ := Reactor.finishRead_jobs hfinish
  have hjob : .read task.handle task.offset task.len onDone ∈ s.reactor.jobs :=
    hjobs ▸ Multiset.mem_cons_self _ _
  obtain ⟨seq, hop⟩ := (hsound.jobs _ hjob).2
  change onDone.op = _ at hop
  have hpending := hsound.job_pending hrunning hjob hstream
  change onDone.op ∈ _ at hpending
  have hframe : reactor.handles = s.reactor.handles ∧
      reactor.canonCache = s.reactor.canonCache := by
    obtain ⟨item, -, hitem⟩ := Option.bind_eq_some_iff.mp hfinish
    cases hitem
    exact ⟨rfl, rfl⟩
  refine h.finish hjobs (hframe.2 ▸ h.cache) (fun _ hentry _ => hframe.1 ▸ hentry) hstream ?_
  dsimp only
  rw [hop] at hpending hevent ⊢
  cases hevent
  refine Served.mono ((h.streams _ stream hstream).read hpending ?_)
    (fun entry hentry _ => hframe.1 ▸ (List.mem_filter.mp hentry).1)
    (fun job hother _ => hjobs ▸ Multiset.mem_cons_of_mem hother)
  intro held location hfile
  have hlocation := hfile.jobs _ _ _ _ hjob rfl
  have htaskFile := (hsound.exact hrunning).tasks _ (List.mem_of_getElem? htask)
  dsimp only at htaskFile
  rw [hresult, Reactor.readResult, htaskFile]
  by_cases hid : task.handle.id = 0
  · rw [if_pos hid]
    exact Or.inl hid
  · rw [if_neg hid] at htaskFile ⊢
    have hreplies := hok task onDone task.handle.file htask htaskFile
    rw [hlocation] at hreplies
    rcases @Engine.readAtCalls_cases (site.content location) task.offset task.len reply site.fault
        (fun call position want => (hreplies call position want).1)
        (fun call position want => (hreplies call position want).2) with
      ⟨error, herror, hfault⟩ | hdata
    · dsimp only
      rw [herror]
      exact Or.inr hfault
    · dsimp only
      rw [hdata]
      exact ⟨hid, rfl⟩

theorem Isolated.finishReadDir (h : Isolated crates cfg site requests s)
    (hsound : Sound crates cfg n s) (hrunning : s.reactor.running = true)
    {result : ReadDirResult} (hok : site.allows requests s (.finishReadDir index result))
    (hstep : s.finishReadDir index result = some t) :
    Isolated crates cfg site requests t := by
  obtain ⟨⟨reactor, onDone, result'⟩, hfinish, hnext⟩ := Option.bind_eq_some_iff.mp hstep
  obtain ⟨stream, event, hstream, hevent, rfl⟩ := runCallback_cases hnext
  obtain ⟨path, htask, hjobs, rfl⟩ := Reactor.finishReadDir_jobs hfinish
  have hjob : .readDir path onDone ∈ s.reactor.jobs := hjobs ▸ Multiset.mem_cons_self _ _
  have hop : onDone.op = .readDir path := (hsound.jobs _ hjob).2
  have hpending := hsound.job_pending hrunning hjob hstream
  change onDone.op ∈ _ at hpending
  have hframe : reactor.handles = s.reactor.handles ∧
      reactor.canonCache = s.reactor.canonCache := by
    obtain ⟨item, -, hitem⟩ := Option.bind_eq_some_iff.mp hfinish
    cases hitem
    exact ⟨rfl, rfl⟩
  refine h.finish hjobs (hframe.2 ▸ h.cache) (fun _ hentry _ => hframe.1 ▸ hentry) hstream ?_
  dsimp only
  rw [hop] at hpending hevent ⊢
  cases hevent
  rw [hok path onDone htask]
  exact Served.mono ((h.streams _ stream hstream).readDir hpending)
    (fun entry hentry _ => hframe.1 ▸ (List.mem_filter.mp hentry).1)
    (fun job hother _ => hjobs ▸ Multiset.mem_cons_of_mem hother)

end Steps

/-! ## Runs -/

section Runs

variable {crates : Crates} {cfg : Config} {site : Site}
  {requests : ℕ → List (Bytes × Bytes)} {n : ℕ} {s t : Server} {action : Action}
  {actions : List Action}

theorem isolated_initial : Isolated crates cfg site requests initial where
  cache _ hentry := absurd hentry List.not_mem_nil
  streams index stream hstream := by
    rw [initial, List.getElem?_nil] at hstream
    cases hstream

/-- Whatever a thread does next, no stream notices the others. -/
theorem isolated_step (h : Isolated crates cfg site requests s) (hsound : Sound crates cfg n s)
    (hok : site.allows requests s action) (hstep : step crates cfg s action = some t) :
    Isolated crates cfg site requests t := by
  cases action with
  | newStream =>
      cases hstep
      exact h.newStream
  | callback index action => exact h.callback hsound hok hstep
  | claimId index => exact h.claimId hstep
  | submit index => exact h.submit hstep
  | sendOpen index => exact h.sendOpen hstep
  | destroy index => exact h.destroy hstep
  | dropInner index => exact h.dropInner hstep
  | shutdown =>
      cases hstep
      exact h.shutdown
  | takeCommand => exact h.takeCommand hstep
  | finishOpen index os descriptor =>
      have hos : os = site.os := hok
      subst hos
      exact h.finishOpen hsound (hsound.running hstep rfl) hstep
  | finishRead index reply => exact h.finishRead hsound (hsound.running hstep rfl) hok hstep
  | finishReadDir index result =>
      exact h.finishReadDir hsound (hsound.running hstep rfl) hok hstep

theorem run_isolated (h : Isolated crates cfg site requests s) (hsound : Sound crates cfg n s)
    (hdrawn : n + opens actions < CompioEngine.idRange)
    (hrun : ServerRun crates cfg (site.allows requests) s actions t) :
    Isolated crates cfg site requests t := by
  induction hrun generalizing n with
  | nil s => exact h
  | @cons s u t action actions hok hstep hrest ih =>
      rw [opens_cons, ← add_assoc] at hdrawn
      exact ih (isolated_step h hsound hok hstep) (step_sound hsound (by omega) hstep) hdrawn

theorem Isolated.alone {index : ℕ} {stream : Stream}
    (h : Isolated crates cfg site requests s) (hstream : s.streams[index]? = some stream) :
    ∃ handle location alone, StreamRun crates cfg
      (site.serves (requests index) handle location) State.initial alone stream.filter := by
  cases h.streams index stream hstream with
  | unopened _ hruns => exact ⟨⟨0⟩, [], hruns ⟨0⟩ []⟩
  | @reads handle location _ hrun _ => exact ⟨handle, location, hrun⟩

theorem server_isolated (hdrawn : opens actions < CompioEngine.idRange)
    (hrun : ServerRun crates cfg (site.allows requests) initial actions s) :
    Isolated crates cfg site requests s :=
  run_isolated isolated_initial sound_initial ((zero_add _).trans_lt hdrawn) hrun

/-- Each stream of a server goes through a run of that stream alone, in which the regular
file that opens is one file and every read is of that file. -/
theorem stream_runs_alone {index : ℕ} {stream : Stream}
    (hdrawn : opens actions < CompioEngine.idRange)
    (hrun : ServerRun crates cfg (site.allows requests) initial actions s)
    (hstream : s.streams[index]? = some stream) :
    ∃ handle location alone, StreamRun crates cfg
      (site.serves (requests index) handle location) State.initial alone stream.filter :=
  (server_isolated hdrawn hrun).alone hstream

end Runs

/-! ### Witness -/

/-- A filesystem with one file, which is read without faults. -/
def smallSite : Site where
  os := smallFileOs
  readsFiles := Os.ofTree_readsFiles _
  lists _ := .ok []
  fault _ := False

/-- The only regular file of the small filesystem. -/
theorem smallSite_file {location : Location} {file : RegularFile}
    (h : smallSite.os.tree location = some (.file file)) : file = ⟨[1, 2, 3], .ok 0⟩ := by
  unfold smallSite smallFileOs Os.ofTree at h
  dsimp only at h
  split at h
  · cases h
  · cases h
  · cases h
    rfl
  · cases h

/-- Two streams that ask for the same file, step by step in turn. -/
def sharedActions : List Action :=
  [.newStream, .newStream,
    .callback 0 (.requestHeaders (getHeaders "/a") []),
    .callback 1 (.requestHeaders (getHeaders "/a") []),
    .claimId 1, .claimId 0, .sendOpen 1, .sendOpen 0, .takeCommand, .takeCommand,
    .finishOpen 1 smallFileOs 7, .finishOpen 0 smallFileOs 8,
    .callback 0 .commit, .callback 1 .commit,
    .callback 1 (.scheduled []), .callback 0 (.scheduled [])]

def sharedRun : Option Server :=
  sharedActions.foldlM (step Crates.plain (Config.defaults ⟨"/srv"⟩)) initial

theorem sharedRun_allowed {s : Server} (h : sharedRun = some s) :
    ServerRun Crates.plain (Config.defaults ⟨"/srv"⟩)
      (smallSite.allows fun _ => getHeaders "/a") initial sharedActions s := by
  have hrun : ServerRun Crates.plain (Config.defaults ⟨"/srv"⟩) (fun _ _ => True) initial
      sharedActions s := Transition.Run.of_foldlM (fun _ _ => trivial) h
  refine hrun.mono_of_mem ?_
  intro u action haction _
  simp only [sharedActions, List.mem_cons, List.not_mem_nil, or_false] at haction
  rcases haction with rfl | rfl | rfl | rfl | rfl | rfl | rfl | rfl | rfl | rfl | rfl | rfl |
    rfl | rfl | rfl | rfl
  all_goals trivial

theorem stream_runs_alone_shared :
    ∃ s stream, ServerRun Crates.plain (Config.defaults ⟨"/srv"⟩)
        (smallSite.allows fun _ => getHeaders "/a") initial sharedActions s ∧
      s.streams[1]? = some stream ∧ sentBytes stream.filter.trace = [1, 2, 3] ∧
      ∃ handle location alone, StreamRun Crates.plain (Config.defaults ⟨"/srv"⟩)
        (smallSite.serves (getHeaders "/a") handle location) State.initial alone
        stream.filter := by
  have hsent : (sharedRun.bind fun s => s.streams[1]?).map
      (fun stream => sentBytes stream.filter.trace) = some [1, 2, 3] := by
    decide
  obtain ⟨stream, hstream, hbytes⟩ := Option.map_eq_some_iff.mp hsent
  obtain ⟨s, hs, hstream⟩ := Option.bind_eq_some_iff.mp hstream
  have hrun := sharedRun_allowed hs
  exact ⟨s, stream, hrun, hstream, hbytes, stream_runs_alone (by decide) hrun hstream⟩

end Server

end EnvoyFiles
