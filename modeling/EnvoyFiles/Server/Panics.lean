import EnvoyFiles.Filter.HiddenFiles
import EnvoyFiles.Filter.LoadedConfig
import EnvoyFiles.Server.Responses

/-!
# Callbacks that do not panic

A panic in a callback takes the whole proxy down, with every stream of it.  Where the texts
of the configuration can stand in a header and the modification times on the filesystem can
be formatted, no callback of a server panics, however its threads go on.
-/

namespace EnvoyFiles

open Filter

/-- The modification times of the files, and of what the directories list, are those that an
HTTP date can express. -/
structure Site.Dated (site : Site) : Prop where
  files : ∀ location file, site.os.tree location = some (.file file) →
    (httpDateFrom (Engine.mtimeParts file.modified).1).isSome = true
  lists : ∀ path entries, site.lists path = .ok entries →
    ∀ entry ∈ entries, (httpDateFrom entry.mtimeUnix).isSome = true

/-- The date of a file that opens can be formatted. -/
theorem Site.Dated.opened {site : Site} (hdated : site.Dated) {id : ℕ} {request : OpenRequest}
    {state : EngineState} {opened : Opened}
    (h : (Engine.openStat site.os id request state).1 = .ok opened)
    (hfile : opened.stat.isDir = false) :
    (httpDateFrom opened.stat.mtimeUnix).isSome = true := by
  obtain ⟨-, metadata, -, hmetadata, -, hopened⟩ := Engine.openStatWith_ok h
  have hstat : opened.stat = Engine.statFromMetadata metadata := by
    rw [hopened, Engine.registerFile_stat]
  rw [hstat] at hfile ⊢
  rcases Os.metadata_eq_ok hmetadata with ⟨file, hnode, rfl⟩ | ⟨directory, -, rfl⟩
  · exact hdated.files _ file hnode
  · cases hfile

namespace Filter

/-- What may be called on a stream: request headers come once, a commit follows a delivery,
and nothing is called once the stream is complete. -/
def Callable (s : State) : Action → Prop
  | .requestHeaders _ _ => s.phase = .idle ∧ s.complete = false
  | .complete _ _ => False
  | .commit => 0 < s.delivering
  | .scheduled _ => s.complete = false
  | .hook _ => s.complete = false
  | .streamComplete => s.complete = false

section Callbacks

variable {crates : Crates} {cfg : Config} {site : Site} {headers : List (Bytes × Bytes)}
  {handle : FileHandle} {location : Location} {data : RequestData} {phase : Phase} {op : Op}
  {event : IoEvent} {s : State} {actions : List Action} {action : Action}

/-- A page is made of entries whose dates can be formatted. -/
theorem dated_listing {entries : List DirEntryInfo}
    (h : ∀ entry ∈ entries, (httpDateFrom entry.mtimeUnix).isSome = true) :
    ∃ reaction, Reaction.ofListing crates cfg data (.ok entries) = some reaction := by
  have hpage : (Listing.renderListing crates (urlFor cfg data.relative) data.relative.isEmpty
      (entries.map fun e => ⟨e.name, e.isDir, e.size, e.mtimeUnix⟩)).isSome = true := by
    rw [Listing.renderListing_isSome_iff]
    intro entry hentry
    obtain ⟨info, hinfo, rfl⟩ := List.mem_map.mp hentry
    exact h info hinfo
  obtain ⟨html, hhtml⟩ := Option.isSome_iff_exists.mp hpage
  have hlisting : listingPage crates cfg data entries = some (Text.asBytes html) :=
    congrArg (Option.map Text.asBytes) hhtml
  rw [Reaction.ofListing]
  rw [hlisting]
  exact ⟨_, rfl⟩

/-- Every event that a lookup on such a site awaits has a reaction. -/
theorem dated_reacts (hcrates : crates.FormatsText) (hsafe : HeaderSafe cfg)
    (hdated : site.Dated)
    (hplanned : OpensPlanned crates cfg (site.serves headers handle location) data phase op headers)
    (hyields : (site.serves headers handle location).yields op event) :
    ∃ reaction, react crates cfg data phase event = some reaction := by
  obtain ⟨w, completion, hcompletes, hdone⟩ := hyields
  cases op with
  | openStat request ctx =>
      cases completion with
      | openStat result =>
          obtain ⟨id, state, -, -, rfl, -⟩ := hcompletes
          cases hopen : (Engine.openStat site.os id request state).1 with
          | error error =>
              rw [hopen] at hdone
              cases hdone
              exact ⟨_, rfl⟩
          | ok opened =>
              rw [hopen] at hdone
              cases hdone
              unfold react
              dsimp only
              split
              · split
                · exact ⟨_, rfl⟩
                · exact ⟨_, rfl⟩
              · next hdir =>
                  have hdate := hdated.opened hopen (Bool.eq_false_of_not_eq_true hdir)
                  obtain ⟨plan, hplan⟩ := plansAlways_of_headerSafe hcrates hsafe headers data ctx
                    opened.stat (hplanned.opened request ctx rfl) hdate
                  rw [hplan]
                  exact ⟨_, rfl⟩
      | read result => cases hdone
      | readDir result => cases hdone
  | read handle' offset len seq =>
      cases completion with
      | read result =>
          cases hdone
          exact ⟨_, rfl⟩
      | openStat result => cases hdone
      | readDir result => cases hdone
  | readDir path =>
      cases completion with
      | readDir result =>
          cases hdone
          obtain rfl : result = site.lists path := hcompletes
          unfold react
          dsimp only
          cases hlists : site.lists path with
          | error error => exact ⟨_, rfl⟩
          | ok entries => exact dated_listing (hdated.lists path entries hlists)
      | openStat result => cases hdone
      | read result => cases hdone

/-- No callback of a stream on its own panics. -/
theorem callable_isSome (hcrates : crates.FormatsText) (hsafe : HeaderSafe cfg)
    (hmax : 1 ≤ cfg.maxInflightReads) (hdated : site.Dated)
    (hrun : StreamRun crates cfg (site.serves headers handle location) State.initial actions s)
    (hcall : Callable s action) : ∃ t, step crates cfg s action = some t := by
  cases action with
  | requestHeaders headers' reentry =>
      obtain ⟨hidle, hactive⟩ := hcall
      obtain ⟨t, ht⟩ := @onRequestHeaders_isSome crates cfg { s with reentry } headers'
      refine ⟨t, ?_⟩
      unfold step
      dsimp only
      split
      · exact ht
      · next hother => exact absurd hactive (hother hidle)
  | complete index completion => exact hcall.elim
  | commit =>
      rw [step]
      rw [if_neg (Nat.pos_iff_ne_zero.mp hcall)]
      exact ⟨_, rfl⟩
  | scheduled reentry =>
      refine scheduled_isSome hmax (planned_lookupRule crates cfg _) ?_ hrun hcall reentry
      rintro data phase op event - ⟨headers', hplanned⟩ hyields
      obtain rfl : headers' = headers := hplanned.requests
      exact dated_reacts hcrates hsafe hdated hplanned hyields
  | hook hook =>
      rw [step]
      rw [show s.complete = false from hcall]
      exact ⟨_, rfl⟩
  | streamComplete =>
      rw [step]
      rw [show s.complete = false from hcall]
      exact ⟨_, rfl⟩

end Callbacks

end Filter

namespace Server

section Panics

variable {crates : Crates} {cfg : Config} {site : Site} {requests : ℕ → List (Bytes × Bytes)}
  {s : Server} {actions : List Action} {index : ℕ} {stream : Stream} {action : Filter.Action}

/-- However the threads of a server go on, whatever its requests are and whatever its
filesystem holds below the year 10000, no callback of any of its streams panics. -/
theorem server_never_panics (hcrates : crates.FormatsText) (hsafe : HeaderSafe cfg)
    (hmax : 1 ≤ cfg.maxInflightReads) (hdated : site.Dated)
    (hdrawn : opens actions < CompioEngine.idRange)
    (hrun : ServerRun crates cfg (site.allows requests) initial actions s)
    (hstream : s.streams[index]? = some stream) (hsubmits : stream.submits = [])
    (hcall : Callable stream.filter action) :
    ∃ t, step crates cfg s (.callback index action) = some t := by
  obtain ⟨handle, location, alone, halone⟩ := (server_isolated hdrawn hrun).alone hstream
  obtain ⟨filter, hfilter⟩ := callable_isSome hcrates hsafe hmax hdated halone hcall
  have hcallback : action.isCallback = true := by
    cases action with
    | complete index completion => exact hcall.elim
    | _ => rfl
  refine ⟨s.setStream index { stream with
    filter
    submits := filter.pending.drop stream.filter.pending.length }, ?_⟩
  rw [step, callback, hstream]
  rw [Option.bind_eq_bind, Option.bind_some, hcallback, hsubmits, List.isEmpty_nil]
  simp only [Bool.and_self, if_true]
  rw [hfilter]
  rfl

end Panics

/-! ### Witness -/

theorem smallSite_dated : smallSite.Dated where
  files location file hfile := by
    cases smallSite_file hfile
    decide
  lists path entries hlists entry hentry := by
    cases hlists
    cases hentry

theorem headerSafe_defaults : HeaderSafe (Config.defaults ⟨"/srv"⟩) where
  cacheControl text htext := by cases htext
  defaultContentType := by decide
  overrides name ext text _ _ htext := by cases htext

/-- A stream that has been woken for the file it has asked for. -/
def wokenActions : List Action :=
  [.newStream, .callback 0 (.requestHeaders (getHeaders "/a") []),
    .claimId 0, .sendOpen 0, .takeCommand, .finishOpen 0 smallFileOs 7, .callback 0 .commit]

theorem wokenActions_allowed {s : Server} (h : replayed wokenActions = some s) :
    ServerRun Crates.plain (Config.defaults ⟨"/srv"⟩) (smallSite.allows fun _ => getHeaders "/a")
      initial wokenActions s := by
  refine (replayed_run h).mono_of_mem ?_
  intro u action haction _
  simp only [wokenActions, List.mem_cons, List.not_mem_nil, or_false] at haction
  rcases haction with rfl | rfl | rfl | rfl | rfl | rfl | rfl
  all_goals trivial

theorem server_never_panics_woken :
    ∃ s t, replayed wokenActions = some s ∧ step Crates.plain (Config.defaults ⟨"/srv"⟩) s
      (.callback 0 (.scheduled [])) = some t := by
  have hfacts : ((replayed wokenActions).bind fun s => s.streams[0]?.map fun stream =>
      (stream.submits.isEmpty, stream.filter.complete)) = some (true, false) := by
    decide
  obtain ⟨s, hs, hfacts⟩ := Option.bind_eq_some_iff.mp hfacts
  obtain ⟨stream, hstream, hfacts⟩ := Option.map_eq_some_iff.mp hfacts
  obtain ⟨hsubmits, hactive⟩ := Prod.mk.inj hfacts
  have hcall : Callable stream.filter (.scheduled []) := hactive
  obtain ⟨t, ht⟩ := server_never_panics plain_formatsText headerSafe_defaults (by decide)
    smallSite_dated (by decide) (wokenActions_allowed hs) hstream (List.isEmpty_iff.mp hsubmits)
    hcall
  exact ⟨s, t, hs, ht⟩

end Server

end EnvoyFiles
