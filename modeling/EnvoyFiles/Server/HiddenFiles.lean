import EnvoyFiles.Filter.Invisibility
import EnvoyFiles.Server.Responses

/-!
# Hidden files behind a shared engine

Two servers run on disks that differ in dotfiles only.  To a request that meets no dotfile
they give one answer, with one body behind it; what the other clients of each ask for, and the
order in which its threads go on, tells nothing either.
-/

namespace EnvoyFiles

open Filter

/-- What a server runs on where its filesystem is a disk. -/
def Disk.site (disk : Disk) (fault : IoError → Prop) : Site where
  os := disk.os
  readsFiles := Os.ofTree_readsFiles disk.tree
  lists := Engine.readDir disk
  fault := fault

namespace Filter

section Answers

variable {crates : Crates} {cfg : Config} {store other : Store}
  {contents contents' : FileHandle → Bytes} {headers : List (Bytes × Bytes)}
  {place : RequestData → Phase → Op → Prop} {good : Reaction → Prop} {s t : State}
  {actions actions' : List Action} {call call' : Call}

/-- Stores that are alike in all that a request looks up give it one answer, with one body behind
it. -/
theorem alike_answers (hrule : LookupRule crates cfg (store.serves contents headers) place good)
    (halike : ∀ data phase op, place data phase op → Alike store other phase op)
    (hchunk : 1 ≤ cfg.chunkSize)
    (hrun : StreamRun crates cfg (store.serves contents headers) State.initial actions s)
    (hanswer : s.answer = some call)
    (hrun' : StreamRun crates cfg (other.serves contents' headers) State.initial actions' t)
    (hanswer' : t.answer = some call') :
    call' = call ∧ ∃ sent, Replies crates cfg other headers ⟨call, sent⟩ ∧
      Sends sent s.trace ∧ Sends sent t.trace := by
  -- the run is followed on the other store, where the response is unique
  obtain ⟨followed, u, hfollow, htwin⟩ := twin_run hrule halike hrun
  have htrace : s.trace = u.trace := htwin.trace_eq
  have hanswered : u.answer = some call := by
    rw [← hanswer, State.answer, State.answer, htrace]
  obtain ⟨sent, hreplies, hsends⟩ := run_replies hchunk hfollow hanswered
  obtain ⟨sent', hreplies', hsends'⟩ := run_replies hchunk hrun' hanswer'
  cases hreplies.unique hreplies'
  exact ⟨rfl, sent, hreplies, htrace ▸ hsends, hsends'⟩

end Answers

end Filter

namespace Server

section HiddenFiles

variable {crates : Crates} {cfg : Config} {disk other : Disk} {fault fault' : IoError → Prop}
  {location : Location} {requests requests' : ℕ → List (Bytes × Bytes)} {s s' : Server}
  {actions actions' : List Action} {index index' : ℕ} {stream stream' : Stream}
  {call call' : Call}

/-- On disks that differ in dotfiles only, a request that meets no dotfile gets the same answer
and is sent parts of the same body, at whatever moment and whatever else is asked for. -/
theorem server_hides_dotfiles (hchunk : 1 ≤ cfg.chunkSize) (hides : HidesDotfiles cfg location)
    (hagree : AgreeOutsideDotfiles location disk other)
    (hroot : CanonicalRoot disk.os cfg.root location)
    (hother : CanonicalRoot other.os cfg.root location)
    (hdrawn : opens actions < CompioEngine.idRange)
    (hrun : ServerRun crates cfg ((disk.site fault).allows requests) initial actions s)
    (hdrawn' : opens actions' < CompioEngine.idRange)
    (hrun' : ServerRun crates cfg ((other.site fault').allows requests') initial actions' s')
    (hstream : s.streams[index]? = some stream) (hanswer : stream.filter.answer = some call)
    (hstream' : s'.streams[index']? = some stream')
    (hanswer' : stream'.filter.answer = some call')
    (hrequest : requests' index' = requests index)
    (hmeets : ¬MeetsDotfiles crates cfg (requests index)) :
    call' = call ∧ ∃ sent, Sends sent stream.filter.trace ∧ Sends sent stream'.filter.trace := by
  obtain ⟨handle, held, alone, halone⟩ := (server_isolated hdrawn hrun).alone hstream
  obtain ⟨handle', held', alone', halone'⟩ := (server_isolated hdrawn' hrun').alone hstream'
  have hserves := run_serves_store halone
  have hserves' := run_serves_store halone'
  rw [Site.store_disk rfl rfl] at hserves hserves'
  rw [hrequest] at hserves'
  have hrule := @looksUp_lookupRule crates cfg (disk.store cfg)
    (fun _ => (disk.site fault).content held) (requests index)
    (neverLists_of_not_meetsDotfiles hides hmeets)
  obtain ⟨hcall, sent, -, hsends, hsends'⟩ := alike_answers hrule
    (fun _ _ _ hplace => alike_of_looksUp hides hagree hroot hother hmeets hplace) hchunk hserves
    hanswer hserves' hanswer'
  exact ⟨hcall, sent, hsends, hsends'⟩

end HiddenFiles

/-! ### Witness -/

/-- `/srv` on an empty disk. -/
def bareDisk : Disk := (Corridor.empty plainName_srv).disk

theorem plainName_hidden : PlainName ".hidden" :=
  ⟨by decide, by decide, by decide, by decide⟩

/-- `/srv` with one hidden file. -/
def hidingDisk : Disk := (Corridor.holding plainName_srv plainName_hidden).disk

def bareActions : List Action :=
  [.newStream, .callback 0 (.requestHeaders (getHeaders "/a") []), .claimId 0, .sendOpen 0,
    .takeCommand, .finishOpen 0 bareDisk.os 7, .callback 0 .commit, .callback 0 (.scheduled [])]

/-- The first client asks for the hidden file. -/
def hidingRequests (index : ℕ) : List (Bytes × Bytes) :=
  if index = 0 then getHeaders "/.hidden" else getHeaders "/a"

def hidingActions : List Action :=
  [.newStream, .newStream, .callback 0 (.requestHeaders (getHeaders "/.hidden") []),
    .callback 1 (.requestHeaders (getHeaders "/a") []), .claimId 1, .sendOpen 0, .takeCommand,
    .finishOpen 0 hidingDisk.os 7, .callback 1 .commit, .callback 1 (.scheduled [])]

theorem bareActions_allowed {s : Server} (h : replayed bareActions = some s) :
    ServerRun Crates.plain (Config.defaults ⟨"/srv"⟩)
      ((bareDisk.site fun _ => False).allows fun _ => getHeaders "/a") initial bareActions s := by
  refine (replayed_run h).mono_of_mem ?_
  intro u action haction _
  simp only [bareActions, List.mem_cons, List.not_mem_nil, or_false] at haction
  rcases haction with rfl | rfl | rfl | rfl | rfl | rfl | rfl | rfl
  all_goals first | rfl | trivial

theorem hidingActions_allowed {s : Server} (h : replayed hidingActions = some s) :
    ServerRun Crates.plain (Config.defaults ⟨"/srv"⟩)
      ((hidingDisk.site fun _ => False).allows hidingRequests) initial hidingActions s := by
  refine (replayed_run h).mono_of_mem ?_
  intro u action haction _
  simp only [hidingActions, List.mem_cons, List.not_mem_nil, or_false] at haction
  rcases haction with rfl | rfl | rfl | rfl | rfl | rfl | rfl | rfl | rfl | rfl
  all_goals first | rfl | trivial

/-- A request for a named path, without an accepted encoding, meets no dotfile. -/
theorem named_meets_nothing :
    ¬MeetsDotfiles Crates.plain (Config.defaults ⟨"/srv"⟩) (getHeaders "/a") := by
  have hnamed : (acceptedRequest Crates.plain (Config.defaults ⟨"/srv"⟩)
      (getHeaders "/a")).all (fun request => request.1.relative != "") = true := by
    decide
  intro hmeets
  cases hmeets with
  | variant _ haccepted hrelative _ =>
      rw [haccepted, Option.all_some, hrelative] at hnamed
      cases hnamed
  | listing _ _ hlisting _ _ => cases hlisting

/-- The file that is not there is missed alike. -/
theorem server_hides_dotfiles_missed :
    ∃ s s' stream stream' call call', replayed bareActions = some s ∧
      replayed hidingActions = some s' ∧ s.streams[0]? = some stream ∧
      s'.streams[1]? = some stream' ∧ stream.filter.answer = some call ∧
      stream'.filter.answer = some call' ∧ call' = call ∧
      ∃ sent, Sends sent stream.filter.trace ∧ Sends sent stream'.filter.trace := by
  have hsome : ((replayed bareActions).bind fun s => s.streams[0]?.bind fun stream =>
      stream.filter.answer).isSome = true := by
    decide
  have hsome' : ((replayed hidingActions).bind fun s => s.streams[1]?.bind fun stream =>
      stream.filter.answer).isSome = true := by
    decide
  obtain ⟨call, hcall⟩ := Option.isSome_iff_exists.mp hsome
  obtain ⟨s, hs, hcall⟩ := Option.bind_eq_some_iff.mp hcall
  obtain ⟨stream, hstream, hanswer⟩ := Option.bind_eq_some_iff.mp hcall
  obtain ⟨call', hcall'⟩ := Option.isSome_iff_exists.mp hsome'
  obtain ⟨s', hs', hcall'⟩ := Option.bind_eq_some_iff.mp hcall'
  obtain ⟨stream', hstream', hanswer'⟩ := Option.bind_eq_some_iff.mp hcall'
  have hides : HidesDotfiles (Config.defaults ⟨"/srv"⟩) ["srv"] :=
    ⟨plainName_srv, rfl, rfl, undotted_indexFiles, by decide⟩
  exact ⟨s, s', stream, stream', call, call', hs, hs', hstream, hstream', hanswer, hanswer',
    server_hides_dotfiles (by decide) hides
      (Corridor.agree_holding plainName_srv plainName_hidden List.prefix_rfl rfl)
      (Corridor.canonicalRoot List.prefix_rfl) (Corridor.canonicalRoot List.prefix_rfl)
      (by decide) (bareActions_allowed hs) (by decide) (hidingActions_allowed hs') hstream hanswer
      hstream' hanswer' rfl named_meets_nothing⟩

end Server

end EnvoyFiles
