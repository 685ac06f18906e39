import EnvoyFiles.Filter.HiddenFiles
import EnvoyFiles.Filter.LoadedConfig

/-!
# Which requests see dotfiles

A listing shows the dotfile of a directory that is otherwise empty.  With the variants of the
root this is necessity; together with the invisibility of dotfiles to all other requests it
says exactly which requests see dotfiles.
-/

namespace EnvoyFiles.Filter

open Text Path

/-! ## Responses that are received -/

section Responses

variable {crates : Crates} {cfg : Config} {store : Store} {headers : List (Bytes × Bytes)}

/-- What is received is the response of the sequential lookup. -/
theorem response_of_receives {call : Call} {sends : List (Bytes × Bool)}
    (hchunk : 1 ≤ cfg.chunkSize) (hdirectory : cfg.directory ≠ .deny)
    (hindex : NoIndexDirectory crates cfg store headers)
    (h : store.Receives crates cfg headers (some call) sends) :
    ∃ sent, sequentialResponse crates cfg store headers = some ⟨call, sent⟩ := by
  obtain ⟨contents, actions, s, hrun, hanswer, -⟩ := h
  obtain ⟨w, reaction, hfresh, hgood, hreaction, hmoves⟩ :=
    (lookup_rule (sequential_lookupRule hdirectory hindex) hrun).answer_good hanswer
  obtain ⟨sent, hresponse, -⟩ := answers_response hchunk hgood hreaction hfresh hmoves
  exact ⟨sent, hresponse⟩

/-- The response of the sequential lookup is received. -/
theorem receives_response {response : Response} (hchunk : 1 ≤ cfg.chunkSize)
    (hdirectory : cfg.directory ≠ .deny) (hindex : NoIndexDirectory crates cfg store headers)
    (h : sequentialResponse crates cfg store headers = some response) :
    ∃ sends, store.Receives crates cfg headers (some response.start) sends := by
  have hresponse : sequentialResponse crates cfg store headers ≠ none := by
    rw [h]
    nofun
  obtain ⟨actions, s, call, hrun, hanswer⟩ :=
    lookup_reaches (sequential_lookupRule hdirectory hindex)
      (sequential_lookupRank numberedContents_surjective hdirectory hresponse)
      (.nil State.initial) rfl
  have hreceives : store.Receives crates cfg headers (some call) (clientSends s.trace) :=
    ⟨numberedContents, actions, s, hrun, hanswer, rfl⟩
  obtain ⟨sent, hsame⟩ := response_of_receives hchunk hdirectory hindex hreceives
  rw [h, Option.some_inj] at hsame
  rw [hsame]
  exact ⟨_, hreceives⟩

end Responses

/-! ## Pages -/

section Pages

variable {crates : Crates} {cfg : Config} {data : RequestData}

theorem renderRow_ne_empty {entry : Listing.DirEntry} {row : String}
    (h : Listing.renderRow crates entry = some row) : 0 < row.length := by
  rw [Listing.renderRow] at h
  obtain ⟨modified, -, hrow⟩ := Option.bind_eq_some_iff.mp h
  cases hrow
  simp only [String.length_append]
  have hcell : 0 < "</td><td>".length := by decide
  omega

/-- A page with an entry is longer than one without. -/
theorem renderListing_ne {urlPath page page' : String} {atRoot : Bool} {entry : Listing.DirEntry}
    (h : Listing.renderListing crates urlPath atRoot [] = some page)
    (h' : Listing.renderListing crates urlPath atRoot [entry] = some page') : page ≠ page' := by
  rw [Listing.renderListing] at h h'
  rw [List.mergeSort_nil] at h
  rw [List.mergeSort_singleton] at h'
  cases hrow : Listing.renderRow crates entry with
  | none =>
      simp only [List.mapM_cons, hrow] at h'
      nomatch h'
  | some row =>
      simp only [List.mapM_cons, List.mapM_nil, hrow] at h h'
      cases h
      cases h'
      intro hsame
      have hlength := congrArg String.length hsame
      have hrows : join [row] "" = row := rfl
      have hnone : join [] "" = "" := rfl
      rw [hrows, hnone] at hlength
      simp only [String.length_append, String.length_empty] at hlength
      have hlong := renderRow_ne_empty hrow
      omega

theorem listingPage_ne {entry : DirEntryInfo} {html html' : Bytes}
    (h : listingPage crates cfg data [] = some html)
    (h' : listingPage crates cfg data [entry] = some html') : html ≠ html' := by
  obtain ⟨page, hpage, rfl⟩ := Option.map_eq_some_iff.mp h
  obtain ⟨page', hpage', rfl⟩ := Option.map_eq_some_iff.mp h'
  intro hsame
  exact renderListing_ne hpage hpage' (asBytes_injective hsame)

end Pages

/-! ## Listings -/

section Listings

variable {crates : Crates} {cfg : Config} {location : Location} {corridor : Corridor}
  {path : PathBuf} {headers : List (Bytes × Bytes)} {data : RequestData}
  {encodings : List Encoding}

/-- Where the corridor holds at most a dotfile, only its end is visible. -/
theorem visible_opens {file : StoredFile} (hplain : ∀ name ∈ location, PlainName name)
    (hway : location <+: corridor.target)
    (hdot : ∀ name ∈ corridor.file, name.toList.head? = some '.')
    (hvisible : Visible location path)
    (h : (corridor.disk.store cfg).opens path = .ok file) :
    path.components = corridor.target := by
  rcases corridor_opens_eq_ok (hvisible.noParent hplain) h with hend | ⟨name, hname, hpath⟩
  · exact hend
  · obtain ⟨below, hbelow, hcomponents⟩ := hvisible
    obtain ⟨rest, hrest⟩ := hway
    rw [hcomponents, ← hrest, List.append_assoc] at hpath
    have hmem : name ∈ below := by
      rw [List.append_cancel_left hpath]
      exact List.mem_append_cons_self
    exact absurd (hdot name hname) (hbelow name hmem)

theorem outside_opens {file : StoredFile} (hway : location <+: corridor.target)
    (houtside : Outside location path) :
    (corridor.disk.store cfg).opens path ≠ .ok file := by
  intro h
  rcases corridor_opens_eq_ok houtside.1 h with hend | ⟨name, -, hpath⟩
  · exact houtside.2 (hend ▸ hway)
  · exact houtside.2 (hpath ▸ hway.trans (List.prefix_append _ _))

/-- No index file opens, unless it names the directory itself. -/
theorem index_opens {name : String} {file : StoredFile} (hides : HidesDotfiles cfg location)
    (hway : location <+: corridor.target)
    (hdot : ∀ name ∈ corridor.file, name.toList.head? = some '.')
    (hdir : Visible location path) (hname : name ∈ cfg.indexFiles)
    (hne : (path.join name).components ≠ corridor.target) :
    (corridor.disk.store cfg).opens (path.join name) ≠ .ok file := by
  intro h
  rcases visible_or_outside hdir (hides.indexFiles name hname) with hvisible | houtside
  · exact hne (visible_opens hides.plain hway hdot hvisible h)
  · exact outside_opens hway houtside h

theorem visible_variant {encoding : Encoding} (hides : HidesDotfiles cfg location)
    (haccepted : acceptedRequest crates cfg headers = some (data, encodings))
    (hencoding : encoding ∈ encodings) (hrelative : data.relative ≠ "") :
    Visible location (cfg.root.join (data.relative ++ encoding.fileSuffix)) := by
  obtain ⟨rawPath, relative, trailingSlash, -, hresolve, rfl, rfl⟩ :=
    acceptedRequest_resolved haccepted
  exact visible_requested hides.components hides.serveDotfiles hresolve
    (suffix_noSeparator (hides.precompressed _ (mem_acceptedEncodings hencoding)))
    (Or.inl hrelative)

/-- The request leads to the listing of its directory, where no index file keeps it from it. -/
structure ListsDirectory (crates : Crates) (cfg : Config) (headers : List (Bytes × Bytes))
    (data : RequestData) (encodings : List Encoding) : Prop where
  refusal : refusal cfg headers = none
  accepted : acceptedRequest crates cfg headers = some (data, encodings)
  noVariant : data.relative = "" → encodings = []
  listing : cfg.directory = .listing
  redirect : (!data.trailingSlash && cfg.redirectTrailingSlash) = false
  indexFiles : ∀ name ∈ cfg.indexFiles,
    ((requestDir cfg data).join name).components ≠ (requestDir cfg data).components

theorem ListsDirectory.visible (hides : HidesDotfiles cfg location)
    (h : ListsDirectory crates cfg headers data encodings) :
    Visible location (requestDir cfg data) := by
  obtain ⟨rawPath, relative, trailingSlash, hmounted, hresolve, hdata, -⟩ :=
    acceptedRequest_resolved h.accepted
  have haccepts : Accepts crates cfg headers data (buildFileCandidates crates cfg relative
      trailingSlash (RawRequestHeaders.collect headers).acceptEncoding) :=
    ⟨rawPath, relative, trailingSlash, hmounted, hresolve, hdata, rfl⟩
  exact visible_requestDir hides haccepts

theorem Visible.prefix_components (h : Visible location path) : location <+: path.components := by
  obtain ⟨below, -, hcomponents⟩ := h
  rw [hcomponents]
  exact List.prefix_append _ _

/-- In a corridor to its directory the request finds the listing. -/
theorem corridor_lookup (corridor : Corridor) (hides : HidesDotfiles cfg location)
    (h : ListsDirectory crates cfg headers data encodings)
    (htarget : corridor.target = (requestDir cfg data).components)
    (hdot : ∀ name ∈ corridor.file, name.toList.head? = some '.') :
    NoIndexDirectory crates cfg (corridor.disk.store cfg) headers ∧
      sequentialLookup crates cfg (corridor.disk.store cfg) data encodings =
        .page (corridor.file.toList.map fun name => ⟨name, false, 0, 0⟩) := by
  have hdir := h.visible hides
  have hup := hdir.noParent hides.plain
  have hway : location <+: corridor.target := htarget ▸ hdir.prefix_components
  have hroot : cfg.root.components <+: corridor.target := by rwa [hides.components]
  have hopens := corridor_opens_target hroot hup htarget.symm
  have hindex : ∀ name ∈ cfg.indexFiles, ∀ file,
      (corridor.disk.store cfg).opens ((requestDir cfg data).join name) ≠ .ok file := by
    intro name hname file
    exact index_opens hides hway hdot hdir hname (htarget ▸ h.indexFiles name hname)
  have hvariants : firstVariant crates cfg (corridor.disk.store cfg) data encodings = none := by
    rw [firstVariant]
    rw [List.findSome?_eq_none_iff]
    intro encoding hencoding
    rw [Option.map_eq_none_iff]
    have hvisible : Visible location (cfg.root.join (data.relative ++ encoding.fileSuffix)) := by
      apply visible_variant hides h.accepted hencoding
      intro hempty
      rw [h.noVariant hempty] at hencoding
      cases hencoding
    cases hfound : (corridor.disk.store cfg).opens
        (cfg.root.join (data.relative ++ encoding.fileSuffix)) with
    | error error => exact regular_of_error hfound
    | ok file =>
        have hend := visible_opens hides.plain hway hdot hvisible hfound
        have hsame := corridor_opens_target hroot (hvisible.noParent hides.plain) hend
        cases hfound.symm.trans hsame
        exact regular_of_directory hfound (stored_target List.prefix_rfl)
  have hfirst : firstIndex crates cfg (corridor.disk.store cfg) data = none := by
    rw [firstIndex]
    rw [List.findSome?_eq_none_iff]
    intro name hname
    rw [Option.map_eq_none_iff]
    cases hfound : (corridor.disk.store cfg).opens ((requestDir cfg data).join name) with
    | error error => exact found_of_error hfound
    | ok file => exact absurd hfound (hindex name hname file)
  have hlists : (corridor.disk.store cfg).lists (requestDir cfg data) =
      .ok (corridor.file.toList.map fun name => ⟨name, false, 0, 0⟩) :=
    Corridor.readDir_target hup htarget.symm
  constructor
  · intro data' encodings' haccepted name hname file hopens
    cases h.accepted.symm.trans haccepted
    exact absurd hopens (hindex name hname file)
  · rw [sequentialLookup, identityOutcome, directoryOutcome, fallbackOutcome]
    rw [hvariants, Option.getD_none, hopens]
    dsimp only
    rw [if_pos (stored_target List.prefix_rfl), h.redirect, if_neg Bool.false_ne_true, hfirst,
      Option.getD_none, h.listing, hlists]

/-- In a corridor to its directory the request is answered with the page of the listing. -/
theorem corridor_page (corridor : Corridor) (hchunk : 1 ≤ cfg.chunkSize)
    (hides : HidesDotfiles cfg location) (h : ListsDirectory crates cfg headers data encodings)
    (htarget : corridor.target = (requestDir cfg data).components)
    (hdot : ∀ name ∈ corridor.file, name.toList.head? = some '.') :
    ∃ html, listingPage crates cfg data
        (corridor.file.toList.map fun name => ⟨name, false, 0, 0⟩) = some html ∧
      ∀ call, (∃ sends, (corridor.disk.store cfg).Receives crates cfg headers (some call) sends) ↔
        call = .sendResponse 200 [("content-type", "text/html; charset=utf-8")] (some html) := by
  obtain ⟨hindex, hlookup⟩ := corridor_lookup corridor hides h htarget hdot
  have hdeny : cfg.directory ≠ .deny := by
    rw [h.listing]
    nofun
  obtain ⟨html, hhtml⟩ := @listingPage_isSome crates cfg data
    (corridor.file.toList.map fun name => ⟨name, false, 0, 0⟩) (by
      intro entry hentry
      obtain ⟨name, -, rfl⟩ := List.mem_map.mp hentry
      rfl)
  have hresponse : sequentialResponse crates cfg (corridor.disk.store cfg) headers =
      some ⟨.sendResponse 200 [("content-type", "text/html; charset=utf-8")] (some html), []⟩ := by
    rw [sequentialResponse]
    rw [h.refusal]
    dsimp only
    rw [h.accepted, Option.bind_some, hlookup]
    dsimp only [Outcome.response]
    rw [hhtml, Option.map_some]
  refine ⟨html, hhtml, fun call => ⟨?_, ?_⟩⟩
  · rintro ⟨sends, hreceives⟩
    obtain ⟨sent, hsent⟩ := response_of_receives hchunk hdeny hindex hreceives
    cases hresponse.symm.trans hsent
    rfl
  · rintro rfl
    exact receives_response hchunk hdeny hindex hresponse

/-- The listing of a directory with one dotfile is told from that of an empty one. -/
theorem listing_distinguishes {name : String} (hchunk : 1 ≤ cfg.chunkSize)
    (hides : HidesDotfiles cfg location) (h : ListsDirectory crates cfg headers data encodings)
    (hplain : ∀ name ∈ (requestDir cfg data).components, PlainName name)
    (hname : PlainName name) (hdot : name.toList.head? = some '.') :
    ¬SameToClient crates cfg headers ((Corridor.empty hplain).disk.store cfg)
      ((Corridor.holding hplain hname).disk.store cfg) := by
  intro hsame
  obtain ⟨html, hhtml, hreceives⟩ := corridor_page (Corridor.empty hplain) hchunk hides h rfl nofun
  obtain ⟨html', hhtml', hreceives'⟩ :=
    corridor_page (Corridor.holding hplain hname) hchunk hides h rfl
      fun _ hfile => Option.mem_some.mp hfile ▸ hdot
  obtain ⟨sends, hpage⟩ := (hreceives _).mpr rfl
  have hcall := (hreceives' _).mp ⟨sends, (hsame.receives _ _).mp hpage⟩
  injection hcall with _ _ hbody
  exact listingPage_ne hhtml hhtml' (Option.some.inj hbody)

end Listings

/-! ## Invisibility -/

section Invisibility

variable {crates : Crates} {cfg : Config} {location : Location} {headers : List (Bytes × Bytes)}

/-- The request is answered alike on any two disks with the root that differ in dotfiles
only. -/
def DotfilesInvisible (crates : Crates) (cfg : Config) (location : Location)
    (headers : List (Bytes × Bytes)) : Prop :=
  ∀ disk other : Disk, CanonicalRoot disk.os cfg.root location →
    CanonicalRoot other.os cfg.root location → AgreeOutsideDotfiles location disk other →
    SameToClient crates cfg headers (disk.store cfg) (other.store cfg)

/-- Invisibility where the root, or a directory below it, is empty but for one dotfile. -/
theorem DotfilesInvisible.corridor {target : Location} {name : String}
    (h : DotfilesInvisible crates cfg location headers)
    (hroot : cfg.root = PathBuf.ofLocation location)
    (hplain : ∀ name ∈ target, PlainName name) (hway : location <+: target)
    (hname : PlainName name) (hdot : name.toList.head? = some '.') :
    SameToClient crates cfg headers ((Corridor.empty hplain).disk.store cfg)
      ((Corridor.holding hplain hname).disk.store cfg) := by
  refine h _ _ ?_ ?_ (Corridor.agree_holding hplain hname hway hdot)
  · rw [hroot]
    exact Corridor.canonicalRoot hway
  · rw [hroot]
    exact Corridor.canonicalRoot hway

/-- A request that can meet a dotfile meets one on some disk. -/
theorem not_invisible_of_meetsDotfiles (hbounds : cfg.StreamingBounds)
    (hides : HidesDotfiles cfg location) (h : MeetsDotfiles crates cfg headers) :
    ¬DotfilesInvisible crates cfg location headers := by
  intro hinvisible
  have hvariant {data : RequestData} {encodings : List Encoding}
      (hrefusal : refusal cfg headers = none)
      (haccepted : acceptedRequest crates cfg headers = some (data, encodings))
      (hrelative : data.relative = "") : encodings = [] := by
    cases encodings with
    | nil => rfl
    | cons encoding rest =>
        obtain ⟨hsuffix, hdot⟩ := suffix_dotfile (hides.precompressed encoding
          (acceptedRequest_precompressed haccepted encoding List.mem_cons_self))
        have hsame := hinvisible.corridor hides.root hides.plain List.prefix_rfl hsuffix hdot
        exact absurd hsame (variant_distinguishes hbounds.maxInflightReads_ge hides hrefusal
          haccepted hrelative hsuffix)
  cases h with
  | variant hrefusal haccepted hrelative hne => exact hne (hvariant hrefusal haccepted hrelative)
  | listing hrefusal haccepted hlisting hredirect hindex =>
      have hchunk : 1 ≤ cfg.chunkSize := Nat.le_trans (by decide) hbounds.chunkSize_ge
      have hlists : ListsDirectory crates cfg headers _ _ :=
        ⟨hrefusal, haccepted, hvariant hrefusal haccepted, hlisting, hredirect, hindex⟩
      have hdir := hlists.visible hides
      have hplain := PathBuf.plain_components (hdir.noParent hides.plain)
      have hhidden : PlainName ".hidden" := ⟨by decide, by decide, by decide, by decide⟩
      have hsame := hinvisible.corridor hides.root hplain hdir.prefix_components hhidden rfl
      exact listing_distinguishes hchunk hides hlists hplain hhidden rfl hsame

/-- Under a loaded configuration that serves no dotfiles, dotfiles are invisible to exactly
the requests that neither ask for a variant of the root nor come to a listing. -/
theorem dotfiles_invisible_iff {loader : Loader} {raw : Bytes}
    (hload : Config.parse loader raw = .ok cfg) (hplain : ∀ name ∈ location, PlainName name)
    (hroot : cfg.root = PathBuf.ofLocation location) (hdots : cfg.serveDotfiles = false)
    (hindex : ∀ name ∈ cfg.indexFiles, Undotted (PathBuf.mk name).components) :
    DotfilesInvisible crates cfg location headers ↔ ¬MeetsDotfiles crates cfg headers := by
  have hides : HidesDotfiles cfg location :=
    ⟨hplain, hroot, hdots, hindex, Config.precompressed_of_parse hload⟩
  constructor
  · intro hinvisible hmeets
    exact not_invisible_of_meetsDotfiles (Config.streamingBounds_of_parse hload) hides hmeets
      hinvisible
  · intro hmeets disk other hdisk hother hagree
    exact sameToClient_of_not_meetsDotfiles hides hagree hdisk hother hmeets

end Invisibility

theorem parse_srv : Config.parse (documentLoader (.hash [(.string "root", .string "/srv")]))
    (asBytes "root: /srv") = .ok (Config.defaults ⟨"/srv"⟩) :=
  parse_document rfl

theorem plainName_srv : ∀ name ∈ ["srv"], PlainName name := by
  intro name hname
  rw [List.mem_singleton.mp hname]
  exact ⟨by decide, by decide, by decide, by decide⟩

theorem undotted_indexFiles : ∀ name ∈ (Config.defaults ⟨"/srv"⟩).indexFiles,
    Undotted (PathBuf.mk name).components := by
  intro name hname
  rw [List.mem_singleton.mp hname]
  exact undotted_components (by decide)

/-- Where nothing is listed, no dotfile shows in the response for a named path. -/
theorem dotfiles_invisible_named :
    ∃ cfg, Config.parse (documentLoader (.hash [(.string "root", .string "/srv")]))
        (asBytes "root: /srv") = .ok cfg ∧
      DotfilesInvisible Crates.plain cfg ["srv"] (getHeaders "/a") := by
  refine ⟨_, parse_srv, ?_⟩
  apply (dotfiles_invisible_iff parse_srv plainName_srv rfl rfl undotted_indexFiles).mpr
  have hnamed : (acceptedRequest Crates.plain (Config.defaults ⟨"/srv"⟩)
      (getHeaders "/a")).all (fun request => request.1.relative != "") = true := by
    decide
  intro hmeets
  cases hmeets with
  | variant _ haccepted hrelative _ =>
      rw [haccepted, Option.all_some, hrelative] at hnamed
      nomatch hnamed
  | listing _ _ hlisting _ _ => nomatch hlisting

/-- A request for the root without a slash behind it, which accepts gzip. -/
def rootHeaders : List (Bytes × Bytes) :=
  getHeaders "/." ++ [(asBytes "accept-encoding", asBytes "gzip")]

theorem rootHeaders_accepted :
    refusal (Config.defaults ⟨"/srv"⟩) rootHeaders = none ∧
      ∃ data, acceptedRequest Crates.plain (Config.defaults ⟨"/srv"⟩) rootHeaders =
        some (data, [Encoding.gzip]) ∧ data.relative = "" := by
  have hrefusal : (refusal (Config.defaults ⟨"/srv"⟩) rootHeaders).isNone = true := by
    decide
  have haccepted : (acceptedRequest Crates.plain (Config.defaults ⟨"/srv"⟩) rootHeaders).map
      (fun request => (request.1.relative, request.2)) = some ("", [Encoding.gzip]) := by
    decide +kernel
  obtain ⟨⟨data, encodings⟩, hrequest, hsame⟩ := Option.map_eq_some_iff.mp haccepted
  obtain ⟨hrelative, rfl⟩ := Prod.mk.inj hsame
  exact ⟨Option.isNone_iff_eq_none.mp hrefusal, data, hrequest, hrelative⟩

theorem plainName_gzip : PlainName Encoding.gzip.fileSuffix :=
  ⟨by decide, by decide, by decide, by decide⟩

/-- The file `/srv/.gz` is served as the encoded variant of the root. -/
theorem dotfile_served_as_variant :
    ∃ cfg, Config.parse (documentLoader (.hash [(.string "root", .string "/srv")]))
        (asBytes "root: /srv") = .ok cfg ∧
      cfg.serveDotfiles = false ∧
      (∀ name ∈ cfg.indexFiles, Undotted (PathBuf.mk name).components) ∧
      CanonicalRoot (Corridor.empty plainName_srv).disk.os cfg.root ["srv"] ∧
      CanonicalRoot (Corridor.holding plainName_srv plainName_gzip).disk.os cfg.root ["srv"] ∧
      AgreeOutsideDotfiles ["srv"] (Corridor.empty plainName_srv).disk
        (Corridor.holding plainName_srv plainName_gzip).disk ∧
      ¬SameToClient Crates.plain cfg rootHeaders ((Corridor.empty plainName_srv).disk.store cfg)
        ((Corridor.holding plainName_srv plainName_gzip).disk.store cfg) := by
  have hides : HidesDotfiles (Config.defaults ⟨"/srv"⟩) ["srv"] :=
    ⟨plainName_srv, rfl, rfl, undotted_indexFiles, Config.precompressed_of_parse parse_srv⟩
  obtain ⟨hrefusal, data, hrequest, hrelative⟩ := rootHeaders_accepted
  refine ⟨Config.defaults ⟨"/srv"⟩, parse_srv, rfl, undotted_indexFiles,
    Corridor.canonicalRoot List.prefix_rfl, Corridor.canonicalRoot List.prefix_rfl,
    Corridor.agree_holding plainName_srv plainName_gzip List.prefix_rfl rfl, ?_⟩
  exact variant_distinguishes (by decide) hides hrefusal hrequest hrelative plainName_gzip

end EnvoyFiles.Filter
