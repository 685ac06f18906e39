import EnvoyFiles.Filter.Walk

/-!
# Index files

A directory that is requested with a trailing slash is looked up in its index files first.
The first of them that is a regular file is served, and the directory mode decides what
stands for a directory without one.  Where directories are denied, the mode is asked before
the index files: no directory is served.
-/

namespace EnvoyFiles.Filter

/-- The entry of `index_files` opens as a regular file, and none before it opens. -/
def MatchingIndex (cfg : Config) (store : Store) (dirFs : PathBuf) (name : String)
    (file : StoredFile) : Prop :=
  ∃ before after, cfg.indexFiles = before ++ name :: after ∧
    (∀ other ∈ before, store.found (dirFs.join other) = none) ∧
    store.opens (dirFs.join name) = .ok file ∧ file.stat.isDir = false

/-- No entry of `index_files` opens. -/
def NoIndex (cfg : Config) (store : Store) (dirFs : PathBuf) : Prop :=
  ∀ name ∈ cfg.indexFiles, store.found (dirFs.join name) = none

/-! ## Walks through the index -/

/-- A lookup that has come this far ends with the outcome. -/
def EndsWith (crates : Crates) (cfg : Config) (store : Store) (data : RequestData)
    (outcome : Outcome) : Option (Outcome ⊕ Query) → Prop
  | some (.inl found) => found = outcome
  | some (.inr next) => Finds crates cfg store data next outcome
  | none => False

section Walks

variable {crates : Crates} {cfg : Config} {store : Store} {data : RequestData}
  {query : Query} {outcome : Outcome} {phase : Phase} {dirFs path : PathBuf}
  {contentType : String} {pending before after : List (PathBuf × String)}

theorem finds_of_endsWith
    (h : EndsWith crates cfg store data outcome (query.leads crates cfg store data)) :
    Finds crates cfg store data query outcome := by
  cases hleads : query.leads crates cfg store data with
  | none =>
      rw [hleads] at h
      exact h.elim
  | some step =>
      rw [hleads] at h
      cases step with
      | inl found => exact (finds_ends hleads).mpr h.symm
      | inr next => exact (finds_next hleads).mpr h

theorem opens_of_found_none (h : store.found path = none) :
    ∃ error, store.opens path = .error error := by
  cases hopens : store.opens path with
  | error error => exact ⟨error, rfl⟩
  | ok file =>
      rw [found_of_ok hopens] at h
      nomatch h

/-- An index file that does not open leads to the next. -/
theorem nextIndex_skips {entry : PathBuf × String} (hmissing : store.found entry.1 = none)
    (h : ∀ phase, EndsWith crates cfg store data outcome
      ((Reaction.nextIndex cfg dirFs pending).leads phase)) :
    EndsWith crates cfg store data outcome
      ((Reaction.nextIndex cfg dirFs (entry :: pending)).leads phase) := by
  obtain ⟨error, herror⟩ := opens_of_found_none hmissing
  apply finds_of_endsWith
  rw [leads_of_error herror]
  exact h (.resolvingIndex dirFs pending)

/-- The first index file that opens ends the lookup if it is a regular file. -/
theorem nextIndex_finds {file : StoredFile}
    (hbefore : ∀ entry ∈ before, store.found entry.1 = none)
    (hopens : store.opens path = .ok file) (hfile : file.stat.isDir = false) (phase : Phase) :
    EndsWith crates cfg store data (.file file ⟨none, contentType, false⟩)
      ((Reaction.nextIndex cfg dirFs (before ++ (path, contentType) :: after)).leads phase) := by
  induction before generalizing phase with
  | nil =>
      apply finds_of_endsWith
      rw [leads_of_file hopens hfile]
      rfl
  | cons entry rest ih =>
      apply nextIndex_skips (hbefore entry List.mem_cons_self)
      exact ih fun other hother => hbefore other (List.mem_cons_of_mem _ hother)

theorem fallback_endsWith (phase : Phase) :
    EndsWith crates cfg store data (fallbackOutcome cfg store data)
      ((Reaction.fallback cfg (requestDir cfg data)).leads phase) := by
  rw [Reaction.fallback, fallbackOutcome]
  cases cfg.directory with
  | listing =>
      apply finds_of_endsWith
      simp only [Query.leads]
      cases store.lists (requestDir cfg data) with
      | error error => rfl
      | ok entries => rfl
  | index => rfl
  | deny => rfl

/-- Without an index file the mode decides. -/
theorem nextIndex_fallback (hmissing : ∀ entry ∈ pending, store.found entry.1 = none)
    (phase : Phase) :
    EndsWith crates cfg store data (fallbackOutcome cfg store data)
      ((Reaction.nextIndex cfg (requestDir cfg data) pending).leads phase) := by
  induction pending generalizing phase with
  | nil => exact fallback_endsWith phase
  | cons entry rest ih =>
      apply nextIndex_skips (hmissing entry List.mem_cons_self)
      exact ih fun other hother => hmissing other (List.mem_cons_of_mem _ hother)

end Walks

/-! ## Requests of directories -/

section Requests

variable {crates : Crates} {cfg : Config} {store : Store} {contents : FileHandle → Bytes}
  {headers : List (Bytes × Bytes)} {data : RequestData} {encodings : List Encoding}
  {query : Query} {outcome : Outcome} {directory file : StoredFile} {name : String}

/-- A path with a trailing slash is looked up as it stands, without variants. -/
theorem starts_directory (hrefusal : refusal cfg headers = none)
    (haccepted : acceptedRequest crates cfg headers = some (data, encodings))
    (hslash : data.trailingSlash = true) :
    ∃ contentType, Starts crates cfg headers data
      (.opens (.resolvingFile []) (requestDir cfg data) ⟨none, contentType, false⟩) := by
  obtain ⟨rawPath, relative, trailingSlash, hmounted, hresolve, rfl, -⟩ :=
    acceptedRequest_resolved haccepted
  change trailingSlash = true at hslash
  subst hslash
  exact ⟨_, hrefusal, _, [], ⟨rawPath, relative, true, hmounted, hresolve, rfl, rfl⟩, rfl⟩

/-- What the lookup of a directory leads to ends the lookup of its request. -/
theorem directory_responds (hchunk : 1 ≤ cfg.chunkSize)
    (hcontents : Function.Surjective contents) (hrefusal : refusal cfg headers = none)
    (haccepted : acceptedRequest crates cfg headers = some (data, encodings))
    (hslash : data.trailingSlash = true)
    (hopens : store.opens (requestDir cfg data) = .ok directory)
    (hdirectory : directory.stat.isDir = true)
    (h : EndsWith crates cfg store data outcome
      ((Reaction.atDirectory crates cfg data).leads (.resolvingFile []))) :
    Responds crates cfg (store.serves contents headers) (outcome.response crates cfg data) := by
  obtain ⟨contentType, hstarts⟩ := starts_directory hrefusal haccepted hslash
  refine Finds.responds hchunk hcontents hstarts (finds_of_endsWith ?_)
  rw [leads_of_directory hopens hdirectory]
  exact h

theorem atDirectory_denied (hslash : data.trailingSlash = true) (hmode : cfg.directory = .deny) :
    Reaction.atDirectory crates cfg data = .reply 403 [] none := by
  rw [Reaction.atDirectory, hslash, hmode]
  rfl

theorem atDirectory_index (hslash : data.trailingSlash = true) (hmode : cfg.directory ≠ .deny) :
    Reaction.atDirectory crates cfg data =
      .nextIndex cfg (requestDir cfg data) (indexCandidates crates cfg (requestDir cfg data)) := by
  rw [Reaction.atDirectory, hslash, if_neg (by simp), if_neg hmode]

/-- A matching index file ends the lookup of its directory. -/
theorem matchingIndex_endsWith (hmatch : MatchingIndex cfg store (requestDir cfg data) name file)
    (phase : Phase) :
    EndsWith crates cfg store data (.file file ⟨none, configuredContentType crates cfg name, false⟩)
      ((Reaction.nextIndex cfg (requestDir cfg data)
        (indexCandidates crates cfg (requestDir cfg data))).leads phase) := by
  obtain ⟨before, after, hindex, hbefore, hopens, hfile⟩ := hmatch
  rw [indexCandidates, hindex, List.map_append, List.map_cons]
  apply nextIndex_finds ?_ hopens hfile
  intro entry hentry
  obtain ⟨other, hother, rfl⟩ := List.mem_map.mp hentry
  exact hbefore other hother

theorem noIndex_endsWith (hnone : NoIndex cfg store (requestDir cfg data)) (phase : Phase) :
    EndsWith crates cfg store data (fallbackOutcome cfg store data)
      ((Reaction.nextIndex cfg (requestDir cfg data)
        (indexCandidates crates cfg (requestDir cfg data))).leads phase) := by
  apply nextIndex_fallback
  intro entry hentry
  obtain ⟨name, hname, rfl⟩ := List.mem_map.mp hentry
  exact hnone name hname

/-- A directory that is requested with a trailing slash is answered with its first index
file, or without one as the mode says; where directories are denied, with 403. -/
theorem directory_answered (hchunk : 1 ≤ cfg.chunkSize) (hcontents : Function.Surjective contents)
    (hrefusal : refusal cfg headers = none)
    (haccepted : acceptedRequest crates cfg headers = some (data, encodings))
    (hslash : data.trailingSlash = true)
    (hopens : store.opens (requestDir cfg data) = .ok directory)
    (hdirectory : directory.stat.isDir = true) :
    (cfg.directory ≠ .deny →
      (∀ name file, MatchingIndex cfg store (requestDir cfg data) name file →
        Responds crates cfg (store.serves contents headers)
          ((Outcome.file file ⟨none, configuredContentType crates cfg name, false⟩).response
            crates cfg data)) ∧
      (NoIndex cfg store (requestDir cfg data) →
        Responds crates cfg (store.serves contents headers)
          ((fallbackOutcome cfg store data).response crates cfg data))) ∧
    (cfg.directory = .deny →
      Responds crates cfg (store.serves contents headers)
        (some ⟨.sendResponse 403 [] none, []⟩)) := by
  have hresponds {outcome : Outcome} := @directory_responds crates cfg store contents headers
    data encodings outcome directory hchunk hcontents hrefusal haccepted hslash hopens hdirectory
  refine ⟨?_, ?_⟩
  · intro hmode
    rw [atDirectory_index hslash hmode] at hresponds
    exact ⟨fun name file hmatch => hresponds (matchingIndex_endsWith hmatch _),
      fun hnone => hresponds (noIndex_endsWith hnone _)⟩
  · intro hmode
    rw [atDirectory_denied hslash hmode] at hresponds
    exact @hresponds (.reply 403 []) rfl

end Requests

/-! ## The index file of `docs` -/

def docsConfig (directory : DirectoryMode) : Config :=
  { Config.defaults ⟨"/srv"⟩ with directory }

def docsIndex : StoredFile :=
  ⟨⟨3, 0, 0, false⟩, [97, 98, 99], letters_size⟩

theorem docs_accepted (directory : DirectoryMode) :
    refusal (docsConfig directory) (getHeaders "/docs/") = none ∧ ∃ data encodings,
      acceptedRequest Crates.plain (docsConfig directory) (getHeaders "/docs/") =
        some (data, encodings) ∧ data.trailingSlash = true ∧
      requestDir (docsConfig directory) data = ⟨"/srv/docs"⟩ := by
  have hrefusal : (refusal (docsConfig directory) (getHeaders "/docs/")).isNone = true := by
    cases directory <;> decide
  have haccepted : (acceptedRequest Crates.plain (docsConfig directory) (getHeaders "/docs/")).map
      (fun request => (request.1.trailingSlash, requestDir (docsConfig directory) request.1)) =
        some (true, ⟨"/srv/docs"⟩) := by
    cases directory <;> decide
  obtain ⟨⟨data, encodings⟩, hrequest, hsame⟩ := Option.map_eq_some_iff.mp haccepted
  obtain ⟨hslash, hdir⟩ := Prod.mk.inj hsame
  exact ⟨Option.isNone_iff_eq_none.mp hrefusal, data, encodings, hrequest, hslash, hdir⟩

theorem docs_matchingIndex (directory : DirectoryMode) :
    MatchingIndex (docsConfig directory) docsStore ⟨"/srv/docs"⟩ "index.html" docsIndex := by
  refine ⟨[], [], rfl, nofun, ?_, rfl⟩
  have hpath : (⟨"/srv/docs"⟩ : PathBuf).join "index.html" = ⟨"/srv/docs/index.html"⟩ := by
    decide
  rw [hpath]
  rfl

/-- In the mode `index`, the index file of `docs` is served. -/
theorem directory_answered_docs :
    ∃ data encodings, acceptedRequest Crates.plain (docsConfig .index) (getHeaders "/docs/") =
        some (data, encodings) ∧
      Responds Crates.plain (docsConfig .index)
        (docsStore.serves numberedContents (getHeaders "/docs/"))
        ((Outcome.file docsIndex ⟨none, configuredContentType Crates.plain (docsConfig .index)
          "index.html", false⟩).response Crates.plain (docsConfig .index) data) := by
  obtain ⟨hrefusal, data, encodings, haccepted, hslash, hdir⟩ := docs_accepted .index
  have hopens : docsStore.opens (requestDir (docsConfig .index) data) =
      .ok ⟨⟨0, 0, 0, true⟩, [], directory_size⟩ := by
    rw [hdir]
    rfl
  have hmatch := docs_matchingIndex .index
  rw [← hdir] at hmatch
  exact ⟨data, encodings, haccepted, ((directory_answered (by decide) numberedContents_surjective
    hrefusal haccepted hslash hopens rfl).1 (by decide)).1 _ _ hmatch⟩

/-- In the mode `deny`, `docs` is answered with 403, whatever its index file. -/
theorem deny_ignores_index :
    MatchingIndex (docsConfig .deny) docsStore ⟨"/srv/docs"⟩ "index.html" docsIndex ∧
      ∃ data encodings, acceptedRequest Crates.plain (docsConfig .deny) (getHeaders "/docs/") =
          some (data, encodings) ∧ data.trailingSlash = true ∧
        requestDir (docsConfig .deny) data = ⟨"/srv/docs"⟩ ∧
        ∃ actions s, StreamRun Crates.plain (docsConfig .deny)
            (docsStore.serves numberedContents (getHeaders "/docs/")) State.initial actions s ∧
          s.answer = some (.sendResponse 403 [] none) := by
  obtain ⟨hrefusal, data, encodings, haccepted, hslash, hdir⟩ := docs_accepted .deny
  refine ⟨docs_matchingIndex .deny, data, encodings, haccepted, hslash, hdir, ?_⟩
  have hopens : docsStore.opens (requestDir (docsConfig .deny) data) =
      .ok ⟨⟨0, 0, 0, true⟩, [], directory_size⟩ := by
    rw [hdir]
    rfl
  have hresponds := @directory_responds Crates.plain (docsConfig .deny) docsStore numberedContents
    (getHeaders "/docs/") data encodings (.reply 403 []) _ (by decide) numberedContents_surjective
    hrefusal haccepted hslash hopens rfl (by rw [atDirectory_denied hslash rfl]; rfl)
  obtain ⟨actions, s, call, hrun, hanswer⟩ := hresponds.reaches (by simp [Outcome.response]) [] State.initial (.nil _) rfl
  obtain ⟨sent, hresponse, -⟩ := hresponds.answers actions s call hrun hanswer
  cases hresponse
  exact ⟨actions, s, hrun, hanswer⟩

end EnvoyFiles.Filter
