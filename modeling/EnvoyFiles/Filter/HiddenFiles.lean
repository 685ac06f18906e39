import EnvoyFiles.Filter.Dotfiles
import EnvoyFiles.Filter.Progress
import EnvoyFiles.Io.Corridor
import EnvoyFiles.Io.Timestamps

/-!
# Requests that meet a dotfile

A request that can meet a dotfile tells an empty directory from one with a single dotfile in
it.  With the invisibility of dotfiles to all other requests this decides which requests see
dotfiles.
-/

namespace EnvoyFiles.Filter

open Text Path

/-! ## Panics -/

section Panics

variable {crates : Crates} {cfg : Config} {env : Env} {place : RequestData → Phase → Op → Prop}
  {good : Reaction → Prop} {s : State}

theorem handleRead_waker (s : State) (seq : ℕ) (result : ReadResult) :
    (handleRead s seq result).1.waker = s.waker := by
  rw [handleRead]
  cases s.phase with
  | streaming st =>
      cases result with
      | ok data => rfl
      | error error => exact send_waker (s.setPhase .done) _
  | _ => rfl

theorem handleRead_streaming {seq : ℕ} {result : ReadResult}
    (h : (handleRead s seq result).1.phase.isStreaming = true) : s.phase.isStreaming = true := by
  rw [handleRead] at h
  cases hphase : s.phase with
  | streaming st => rfl
  | _ =>
      rw [hphase] at h
      dsimp only at h
      rw [hphase] at h
      cases h

/-- A batch of reads is handled. -/
theorem handleBatch_reads_isSome {events : List IoEvent}
    (hreads : ∀ event ∈ events, event.isRead = true) (s : State) :
    ∃ u ended, handleBatch crates cfg events s = some (u, ended) ∧ u.waker = s.waker ∧
      (u.phase.isStreaming = true → s.phase.isStreaming = true) := by
  induction events generalizing s with
  | nil => exact ⟨s, false, rfl, rfl, id⟩
  | cons event rest ih =>
      cases event with
      | read seq result =>
          have hwaker := handleRead_waker { s with batch := rest } seq result
          have hstreaming := @handleRead_streaming { s with batch := rest } seq result
          rw [handleBatch, handleEvent]
          rw [Option.bind_eq_bind, Option.bind_some]
          generalize handleRead { s with batch := rest } seq result = handled at hwaker hstreaming
          obtain ⟨u, ended⟩ := handled
          cases ended with
          | true => exact ⟨_, true, rfl, hwaker, hstreaming⟩
          | false =>
              obtain ⟨v, ended, heq, hwaker', hstreaming'⟩ :=
                ih (fun other hother => hreads other (List.mem_cons_of_mem _ hother)) u
              exact ⟨v, ended, heq, hwaker'.trans hwaker, fun h => hstreaming (hstreaming' h)⟩
      | opened handle stat ctx prefetched => cases hreads _ List.mem_cons_self
      | openError error => cases hreads _ List.mem_cons_self
      | dir result => cases hreads _ List.mem_cons_self

/-- The callback does not panic on reads. -/
theorem onScheduled_reads_isSome (hreads : ∀ event ∈ s.bridge.events, event.isRead = true)
    (hwaker : s.phase.isStreaming = true → s.waker = true) :
    ∃ t, onScheduled crates cfg s = some t := by
  obtain ⟨u, ended, heq, hsame, hstreaming⟩ := @handleBatch_reads_isSome crates cfg _ hreads
    { s with bridge := .empty, batch := s.bridge.events }
  rw [onScheduled]
  simp only [EventBridge.process_fst, EventBridge.process_snd, heq]
  cases ended with
  | true => exact ⟨u, rfl⟩
  | false =>
      dsimp only
      split
      · next st hphase =>
          refine pump_isSome (hsame.trans (hwaker (hstreaming ?_)))
          rw [hphase]
          rfl
      · exact ⟨u, rfl⟩

/-- Where every event that is awaited has a reaction, no callback panics. -/
theorem scheduled_isSome (hmax : 1 ≤ cfg.maxInflightReads)
    (hrule : LookupRule crates cfg env place good)
    (hreacts : ∀ data phase op event, phase.isResolving = true → place data phase op →
      env.yields op event → ∃ reaction, react crates cfg data phase event = some reaction)
    {actions : List Action} (hrun : StreamRun crates cfg env State.initial actions s)
    (hactive : s.complete = false) (reentry : List (List Hook)) :
    ∃ t, step crates cfg s (.scheduled reentry) = some t := by
  have hlive := live_run hmax hrun
  rw [step_scheduled hactive]
  have hreads (h : ∀ event ∈ s.bridge.events, event.isRead = true) :
      ∃ t, onScheduled crates cfg { s with reentry, commits := s.commits - 1 } = some t :=
    @onScheduled_reads_isSome crates cfg { s with reentry, commits := s.commits - 1 } h
      fun hstreaming => hlive.woken.waker (Or.inr hstreaming)
  cases lookup_rule hrule hrun with
  | idle hunasked =>
      apply hreads
      rw [hunasked.events]
      nofun
  | @seeking data op hawaiting hplace =>
      cases hawaiting.outstanding with
      | submitted _ hevents =>
          apply hreads
          rw [hevents]
          nofun
      | @completed event hyields _ hevents =>
          obtain ⟨reaction, hreact⟩ := hreacts data s.phase op event hawaiting.resolving hplace
            hyields
          exact @onScheduled_isSome crates cfg { s with reentry, commits := s.commits - 1 } data
            event reaction hawaiting.resolving hawaiting.waker hawaiting.request hevents hreact
  | answered _ _ _ _ hanswer =>
      apply hreads
      intro event hevent
      by_contra hread
      rw [Bool.not_eq_true] at hread
      have hwork : .opening ∈ s.work := ticket_of_not_isRead hread ▸ ticket_event hevent
      have hresolving := (resolving_of_opening (hlive.account.balanced hactive) hwork).1
      cases (unanswered_of_resolving (run_obeys hrun) hresolving).symm.trans hanswer
  | gone hcomplete _ => cases hactive.symm.trans hcomplete

end Panics

/-! ## Stores of directories -/

/-- A store without regular files, whose entries have a date that can be formatted. -/
structure OnlyDirectories (store : Store) : Prop where
  opens : ∀ path file, store.opens path = .ok file → file.stat.isDir = true
  lists : ∀ path entries, store.lists path = .ok entries → ∀ entry ∈ entries, entry.mtimeUnix = 0

/-- The reaction serves a file. -/
def Reaction.isServe : Reaction → Bool
  | .serve _ _ _ => true
  | _ => false

section Directories

variable {crates : Crates} {cfg : Config} {store : Store} {contents : FileHandle → Bytes}
  {headers : List (Bytes × Bytes)} {data : RequestData} {phase : Phase} {op : Op}
  {event : IoEvent} {reaction : Reaction}

theorem listingPage_isSome {entries : List DirEntryInfo}
    (h : ∀ entry ∈ entries, entry.mtimeUnix = 0) :
    ∃ html, listingPage crates cfg data entries = some html := by
  have hpage : (Listing.renderListing crates (urlFor cfg data.relative) data.relative.isEmpty
      (entries.map fun e => ⟨e.name, e.isDir, e.size, e.mtimeUnix⟩)).isSome = true := by
    rw [Listing.renderListing_isSome_iff]
    intro entry hentry
    obtain ⟨info, hinfo, rfl⟩ := List.mem_map.mp hentry
    dsimp only
    rw [h info hinfo]
    rfl
  obtain ⟨html, hhtml⟩ := Option.isSome_iff_exists.mp hpage
  exact ⟨Text.asBytes html, congrArg (Option.map Text.asBytes) hhtml⟩

theorem Reaction.Bare.isServe (h : reaction.Bare) : reaction.isServe = false := by
  cases reaction with
  | serve plan handle prefetched => exact h.elim
  | _ => rfl

/-- In a store of directories every event that is awaited has a reaction, and none serves a
file. -/
theorem directories_react (hstore : OnlyDirectories store) (hread : op.isRead = false)
    (hyields : (store.serves contents headers).yields op event) :
    ∃ reaction, react crates cfg data phase event = some reaction ∧ reaction.isServe = false := by
  cases op with
  | read handle offset len seq => nomatch hread
  | readDir path =>
      have hevent := serves_list hyields
      subst hevent
      cases hlists : store.lists path with
      | error error => exact ⟨_, rfl, rfl⟩
      | ok entries =>
          obtain ⟨html, hhtml⟩ :=
            @listingPage_isSome crates cfg data entries (hstore.lists path entries hlists)
          unfold react Reaction.ofListing
          dsimp only
          rw [hhtml]
          exact ⟨_, rfl, rfl⟩
  | openStat request ctx =>
      rcases serves_open hyields with
        ⟨handle, file, prefetched, hopens, rfl, -, -⟩ | ⟨error, -, rfl⟩
      · unfold react
        dsimp only
        rw [if_pos (hstore.opens _ file hopens)]
        split
        · exact ⟨_, rfl, (afterMiss_bare phase).isServe⟩
        · exact ⟨_, rfl, atDirectory_bare.isServe⟩
      · exact ⟨_, rfl, (afterError_bare error phase).isServe⟩

theorem awaits_isRead {phase' : Phase}
    (h : reaction.awaits cfg data phase = some (phase', op)) : op.isRead = false := by
  cases reaction with
  | seek _ _ _ =>
      cases h
      rfl
  | list _ =>
      cases h
      rfl
  | _ => nomatch h

/-- In a store of directories nothing is served. -/
theorem directories_lookupRule (hstore : OnlyDirectories store) :
    LookupRule crates cfg (store.serves contents headers) (fun _ _ op => op.isRead = false)
      (fun reaction => reaction.isServe = false) where
  refuse := by
    rintro headers' reaction - hrefusal
    obtain ⟨status, replyHeaders, rfl, -⟩ := refusal_reply hrefusal
    rfl
  start _ _ _ _ _ _ _ := rfl
  next _ _ _ _ _ _ _ _ _ _ _ hnext := awaits_isRead hnext
  answer := by
    intro data phase op event reaction call _ hplace hyields hreact _
    obtain ⟨reaction', hreact', hserve⟩ :=
      @directories_react crates cfg store contents headers data phase op event hstore hplace
        hyields
    cases hreact.symm.trans hreact'
    exact hserve

theorem directories_no_panic (hmax : 1 ≤ cfg.maxInflightReads) (hstore : OnlyDirectories store) :
    ¬store.Panics crates cfg headers := by
  rintro ⟨contents, actions, s, reentry, hrun, hactive, hpanics⟩
  obtain ⟨t, ht⟩ := scheduled_isSome hmax (directories_lookupRule hstore) (by
    intro data phase op event _ hplace hyields
    obtain ⟨reaction, hreact, -⟩ := directories_react hstore hplace hyields
    exact ⟨reaction, hreact⟩) hrun hactive reentry
  rw [hpanics] at ht
  nomatch ht

/-- No headers of a file are sent. -/
theorem directories_no_headers {sends : List (Bytes × Bool)}
    {replyHeaders : List (String × String)} {endStream : Bool} (hstore : OnlyDirectories store) :
    ¬store.Receives crates cfg headers (some (.sendResponseHeaders replyHeaders endStream))
      sends := by
  rintro ⟨contents, actions, s, hrun, hanswer, -⟩
  obtain ⟨w, reaction, -, hgood, hreaction, -⟩ :=
    (lookup_rule (directories_lookupRule hstore) hrun).answer_good hanswer
  cases reaction with
  | serve plan handle prefetched => nomatch hgood
  | reply status headers body => nomatch hreaction
  | _ => nomatch hreaction

end Directories

/-! ## Corridors -/

section Corridors

variable {cfg : Config} {corridor : Corridor} {location : Location} {path : PathBuf}
  {name : String}

theorem stored_target (h : location <+: corridor.target) :
    (corridor.disk.stored location).stat.isDir = true := by
  have hnode : corridor.disk.tree location = some (.directory ⟨0, .ok 0⟩) :=
    Corridor.tree_directory h
  rw [Disk.stored]
  rw [hnode]
  rfl

theorem stored_file (h : name ∈ corridor.file) :
    (corridor.disk.stored (corridor.target ++ [name])).stat.isDir = false := by
  have hnode : corridor.disk.tree (corridor.target ++ [name]) = some (.file ⟨[], .ok 0⟩) :=
    Corridor.tree_file h
  rw [Disk.stored]
  rw [hnode]
  rfl

theorem metadata_isSome (h : (corridor.tree location).isSome = true) :
    ∃ metadata, corridor.disk.os.metadata location = .ok metadata := by
  rw [Os.metadata]
  rw [show corridor.disk.os.tree = corridor.tree from rfl]
  rcases Corridor.tree_isSome h with hway | ⟨name, hname, rfl⟩
  · rw [Corridor.tree_directory hway]
    exact ⟨_, rfl⟩
  · rw [Corridor.tree_file hname]
    exact ⟨_, rfl⟩

/-- What is located below the root opens. -/
theorem corridor_opens {found : Location} (hroot : cfg.root.components <+: corridor.target)
    (hup : ".." ∉ path.components) (hfound : corridor.disk.locate path = .ok found)
    (hbelow : corridor.target <+: found) (hsome : (corridor.tree found).isSome = true) :
    (corridor.disk.store cfg).opens path = .ok (corridor.disk.stored found) := by
  obtain ⟨metadata, hmetadata⟩ := metadata_isSome hsome
  rw [Disk.store_opens hup, hfound]
  dsimp only
  rw [hmetadata]
  dsimp only
  rw [if_pos]
  rw [Engine.startsWith]
  rw [List.isPrefixOf_iff_prefix]
  exact hroot.trans hbelow

theorem corridor_opens_target (hroot : cfg.root.components <+: corridor.target)
    (hup : ".." ∉ path.components) (hpath : path.components = corridor.target) :
    (corridor.disk.store cfg).opens path = .ok (corridor.disk.stored corridor.target) := by
  apply corridor_opens hroot hup (Corridor.locate_target hpath) List.prefix_rfl
  rw [Corridor.tree_directory List.prefix_rfl]
  rfl

theorem corridor_opens_file (hroot : cfg.root.components <+: corridor.target)
    (hup : ".." ∉ path.components) (hname : name ∈ corridor.file)
    (hpath : path.components = corridor.target ++ [name])
    (hfile : path.requiresDirectory = false) :
    (corridor.disk.store cfg).opens path =
      .ok (corridor.disk.stored (corridor.target ++ [name])) := by
  refine corridor_opens hroot hup (Corridor.locate_file hname hpath hfile)
    (List.prefix_append _ _) ?_
  rw [Corridor.tree_file hname]
  rfl

/-- Only the end of the corridor and the file in it open. -/
theorem corridor_opens_eq_ok {file : StoredFile} (hup : ".." ∉ path.components)
    (h : (corridor.disk.store cfg).opens path = .ok file) :
    path.components = corridor.target ∨
      ∃ name ∈ corridor.file, path.components = corridor.target ++ [name] := by
  obtain ⟨found, metadata, hfound, hmetadata, -, -⟩ := Disk.store_opens_eq_ok hup h
  have hsome : (corridor.tree found).isSome = true := by
    rcases Os.metadata_eq_ok hmetadata with ⟨file, hnode, -⟩ | ⟨directory, hnode, -⟩
    · rw [show corridor.tree found = _ from hnode]
      rfl
    · rw [show corridor.tree found = _ from hnode]
      rfl
  rw [← Disk.locate_location hfound]
  exact Corridor.locate_eq_ok hfound hsome

/-- Without a file a corridor holds directories only. -/
theorem corridor_onlyDirectories (hfile : corridor.file = none) :
    OnlyDirectories (corridor.disk.store cfg) := by
  have htree (location : Location) : corridor.tree location = none ∨
      corridor.tree location = some (.directory ⟨0, .ok 0⟩) := by
    cases hnode : corridor.tree location with
    | none => exact Or.inl rfl
    | some node =>
        right
        have hsome : (corridor.tree location).isSome = true := by rw [hnode]; rfl
        rcases Corridor.tree_isSome hsome with hway | ⟨name, hname, -⟩
        · rw [← hnode, Corridor.tree_directory hway]
        · rw [hfile] at hname
          cases hname
  constructor
  · intro path file h
    rw [Disk.store] at h
    dsimp only at h
    split at h
    · cases h
    · next opened _ =>
        cases h
        rw [Disk.stored]
        rw [show corridor.disk.tree = corridor.tree from rfl]
        rcases htree opened.file with hnode | hnode
        · rw [hnode]
        · rw [hnode]
          rfl
  · intro path entries h entry hentry
    change Engine.readDir corridor.disk path = .ok entries at h
    rw [Engine.readDir] at h
    split at h
    · cases h
    · next found _ =>
        split at h
        · cases h
          obtain ⟨name, -, hinfo⟩ := List.mem_filterMap.mp hentry
          rw [Engine.dirEntryInfo, Os.metadata] at hinfo
          rw [show corridor.disk.os.tree = corridor.tree from rfl] at hinfo
          rcases htree (found ++ [name]) with hnode | hnode
          · rw [hnode] at hinfo
            cases hinfo
          · rw [hnode] at hinfo
            cases hinfo
            rfl
        · cases h

end Corridors

/-! ## Variants of the root -/

section Variants

variable {crates : Crates} {cfg : Config} {store : Store} {headers : List (Bytes × Bytes)}
  {data : RequestData} {location : Location} {encoding : Encoding} {encodings : List Encoding}

/-- The first variant is the first candidate. -/
theorem acceptedRequest_variant
    (h : acceptedRequest crates cfg headers = some (data, encoding :: encodings)) :
    ∃ rest, Accepts crates cfg headers data
      (⟨cfg.root.join (data.relative ++ encoding.fileSuffix), some encoding.contentEncoding,
        configuredContentType crates cfg data.relative, true⟩ :: rest) := by
  obtain ⟨rawPath, relative, trailingSlash, hmounted, hresolve, rfl, hencodings⟩ :=
    acceptedRequest_resolved h
  have hcandidates : ∃ rest, ⟨cfg.root.join (relative ++ encoding.fileSuffix),
      some encoding.contentEncoding, configuredContentType crates cfg relative, true⟩ :: rest =
        buildFileCandidates crates cfg relative trailingSlash
          (RawRequestHeaders.collect headers).acceptEncoding := by
    rw [buildFileCandidates]
    rw [← hencodings]
    exact ⟨_, rfl⟩
  obtain ⟨rest, hrest⟩ := hcandidates
  exact ⟨rest, rawPath, relative, trailingSlash, hmounted, hresolve, rfl, hrest⟩

/-- The headers of a file that opens as the first variant can be sent, unless the filter
panics on it. -/
theorem variant_served {file : StoredFile} (hrefusal : refusal cfg headers = none)
    (haccepted : acceptedRequest crates cfg headers = some (data, encoding :: encodings))
    (hopens : store.opens (cfg.root.join (data.relative ++ encoding.fileSuffix)) = .ok file)
    (hfile : file.stat.isDir = false) :
    store.Panics crates cfg headers ∨ ∃ replyHeaders endStream sends,
      store.Receives crates cfg headers (some (.sendResponseHeaders replyHeaders endStream))
        sends := by
  have hidle : Unasked State.initial := ⟨rfl, rfl, nofun, rfl, rfl, rfl⟩
  obtain ⟨rest, haccepts⟩ := acceptedRequest_variant haccepted
  obtain ⟨t, hasked, ⟨reaction, call, hsome, -, -⟩ |
      ⟨data', candidate, rest', -, haccepts', hphase, hawaiting, hpending⟩⟩ :=
    @unasked_request crates cfg (store.serves (fun _ => file.content) headers) _ hidle headers
  · cases hrefusal.symm.trans hsome
  · obtain ⟨rfl, hcandidates⟩ := haccepts'.unique haccepts
    cases hcandidates
    have hcompletes : (store.serves (fun _ => file.content) headers).completes t
        (.openStat (openRequest cfg (some data)
          (cfg.root.join (data.relative ++ encoding.fileSuffix)))
          ⟨some encoding.contentEncoding, configuredContentType crates cfg data.relative, true⟩)
        (.openStat (.ok (⟨1⟩, file.stat, []))) :=
      ⟨file, hopens, rfl, List.nil_prefix, fun _ => rfl⟩
    obtain ⟨action, u, hok, hcompleted, hdone, hphase', hrest⟩ :=
      @awaiting_complete crates cfg _ _ _ _ _ _ hawaiting hpending hcompletes rfl
    have hrun : StreamRun crates cfg (store.serves (fun _ => file.content) headers) State.initial
        [.requestHeaders headers [], action] u :=
      .cons rfl hasked (.single hok hcompleted)
    cases hdone.outstanding with
    | submitted hops _ => exact absurd (hops.symm.trans hrest) (by simp)
    | @completed event hyields _ hevents =>
        rcases serves_open hyields with
          ⟨handle, file', prefetched, hopens', rfl, -, -⟩ | ⟨error, herror, -⟩
        · cases hopens.symm.trans hopens'
          have hreact := @react_file crates cfg data u.phase handle file.stat
            ⟨some encoding.contentEncoding, configuredContentType crates cfg data.relative, true⟩
            prefetched hfile
          cases hplan : planResponse crates (requestFacts cfg data file.stat
              ⟨some encoding.contentEncoding, configuredContentType crates cfg data.relative,
                true⟩) (fileMeta file.stat) with
          | none =>
              rw [hplan] at hreact
              exact Or.inl ⟨_, _, u, [], hrun, hdone.active,
                awaiting_panics hdone hevents hreact⟩
          | some plan =>
              rw [hplan] at hreact
              obtain ⟨v, hstep, hanswers, -⟩ := awaiting_reacts hdone hevents hreact
              have hserved : StreamRun crates cfg (store.serves (fun _ => file.content) headers)
                  u [.scheduled []] v :=
                .single trivial hstep
              exact Or.inr ⟨_, _, _, _, _, v, hrun.append hserved, hanswers _ rfl, rfl⟩
        · cases hopens.symm.trans herror

/-- The suffix of a configured encoding is the name of a dotfile. -/
theorem suffix_dotfile (h : encoding ∈ [Encoding.brotli, Encoding.gzip, Encoding.zstd]) :
    PlainName encoding.fileSuffix ∧ encoding.fileSuffix.toList.head? = some '.' := by
  have hseparator := suffix_noSeparator h
  simp only [List.mem_cons, List.not_mem_nil, or_false] at h
  rcases h with rfl | rfl | rfl
  · exact ⟨⟨by decide, by decide, by decide, hseparator⟩, rfl⟩
  · exact ⟨⟨by decide, by decide, by decide, hseparator⟩, rfl⟩
  · exact ⟨⟨by decide, by decide, by decide, hseparator⟩, rfl⟩

theorem acceptedRequest_precompressed
    (h : acceptedRequest crates cfg headers = some (data, encodings)) :
    ∀ encoding ∈ encodings, encoding ∈ cfg.precompressed := by
  obtain ⟨rawPath, relative, trailingSlash, -, -, -, rfl⟩ := acceptedRequest_resolved h
  exact fun encoding => mem_acceptedEncodings

/-- Two stores, of which one holds directories only and the other serves a file. -/
theorem not_sameToClient {other : Store} (hmax : 1 ≤ cfg.maxInflightReads)
    (hstore : OnlyDirectories store)
    (hserved : other.Panics crates cfg headers ∨ ∃ replyHeaders endStream sends,
      other.Receives crates cfg headers (some (.sendResponseHeaders replyHeaders endStream))
        sends) : ¬SameToClient crates cfg headers store other := by
  intro hsame
  rcases hserved with hpanics | ⟨replyHeaders, endStream, sends, hreceives⟩
  · exact directories_no_panic hmax hstore (hsame.panics.mpr hpanics)
  · exact directories_no_headers hstore ((hsame.receives _ _).mpr hreceives)

/-- A variant of the root is told from its absence. -/
theorem variant_distinguishes (hmax : 1 ≤ cfg.maxInflightReads)
    (hides : HidesDotfiles cfg location) (hrefusal : refusal cfg headers = none)
    (haccepted : acceptedRequest crates cfg headers = some (data, encoding :: encodings))
    (hrelative : data.relative = "") (hsuffix : PlainName encoding.fileSuffix) :
    ¬SameToClient crates cfg headers ((Corridor.empty hides.plain).disk.store cfg)
      ((Corridor.holding hides.plain hsuffix).disk.store cfg) := by
  have hroot : cfg.root.components <+: (Corridor.holding hides.plain hsuffix).target := by
    rw [hides.components]
    exact List.prefix_rfl
  have hcomponents : (cfg.root.join (data.relative ++ encoding.fileSuffix)).components =
      location ++ [encoding.fileSuffix] := by
    rw [hrelative, String.empty_append, PathBuf.components_join_plain hsuffix, hides.components]
  have hup : ".." ∉ (cfg.root.join (data.relative ++ encoding.fileSuffix)).components := by
    rw [hcomponents]
    intro hmem
    rcases List.mem_append.mp hmem with hfront | hback
    · exact (hides.plain _ hfront).ne_parent rfl
    · exact hsuffix.ne_parent (List.mem_singleton.mp hback).symm
  have hfile : (cfg.root.join (data.relative ++ encoding.fileSuffix)).requiresDirectory =
      false := by
    rw [hrelative, String.empty_append]
    exact PathBuf.requiresDirectory_join_plain hsuffix
  have hname : encoding.fileSuffix ∈ (Corridor.holding hides.plain hsuffix).file := rfl
  exact not_sameToClient hmax (corridor_onlyDirectories rfl)
    (variant_served hrefusal haccepted (corridor_opens_file hroot hup hname hcomponents hfile)
      (stored_file hname))

end Variants

end EnvoyFiles.Filter
