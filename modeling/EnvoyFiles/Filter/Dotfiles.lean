import EnvoyFiles.Core.EncodingRanks
import EnvoyFiles.Filter.ConfigLoader
import EnvoyFiles.Filter.Disks
import EnvoyFiles.Filter.Redirects
import EnvoyFiles.Filter.SequentialLookup
import EnvoyFiles.Filter.TwoStores

/-!
# Dotfiles

Request paths with a dotfile in them are refused where dotfiles are not served.  Two other
ways lead to a dotfile: the encoded variants of the root are named by their suffix alone, and
a listing shows all that is in a directory.  A request that goes neither way is answered alike
on two disks that differ in dotfiles only.
-/

namespace EnvoyFiles.Filter

open Text Path

/-! ## Paths that lead to no dotfile -/

/-- The path leads to the location and below it, past no dotfile. -/
def Visible (location : Location) (path : PathBuf) : Prop :=
  ∃ below, Undotted below ∧ path.components = location ++ below

/-- The path does not lead to the location or below it. -/
def Outside (location : Location) (path : PathBuf) : Prop :=
  ".." ∉ path.components ∧ ¬location <+: path.components

section Paths

variable {crates : Crates} {cfg : Config} {location : Location} {path : PathBuf}
  {rawPath relative text suffix : String} {trailingSlash : Bool} {data : RequestData}

theorem undotted_components (h : ∀ piece ∈ split text '/', piece.toList.head? ≠ some '.') :
    Undotted (PathBuf.mk text).components := by
  intro piece hpiece
  rw [PathBuf.components_eq] at hpiece
  exact h piece (List.mem_filter.mp hpiece).1

theorem Visible.join (h : Visible location path) (hrelative : text.toList.head? ≠ some '/')
    (htext : Undotted (PathBuf.mk text).components) : Visible location (path.join text) := by
  obtain ⟨below, hbelow, hpath⟩ := h
  refine ⟨below ++ (PathBuf.mk text).components, ?_, ?_⟩
  · intro name hname
    rcases List.mem_append.mp hname with hfront | hback
    · exact hbelow name hfront
    · exact htext name hback
  · rw [PathBuf.components_join_relative path hrelative, hpath, List.append_assoc]

theorem visible_root (hroot : cfg.root.components = location) : Visible location cfg.root :=
  ⟨[], nofun, hroot.trans (List.append_nil _).symm⟩

/-- A requested path is visible, and so is what its text with a suffix names, unless the
suffix is the whole name. -/
theorem visible_requested (hroot : cfg.root.components = location)
    (hdots : cfg.serveDotfiles = false)
    (hresolve : resolveRequestPath rawPath (pathPolicy cfg) = .ok relative trailingSlash)
    (hsuffix : '/' ∉ suffix.toList) (hname : relative ≠ "" ∨ suffix = "") :
    Visible location (cfg.root.join (relative ++ suffix)) := by
  obtain ⟨segments, rfl, hsegments, -⟩ := resolved_segments hresolve
  have hsafe : ∀ segment ∈ segments, SafeComponent (pathPolicy cfg) segment :=
    fun segment hsegment => (hsegments segment hsegment).1
  rcases List.eq_nil_or_concat segments with rfl | ⟨front, last, rfl⟩
  · have hempty : join [] "/" = "" := rfl
    rcases hname with hne | rfl
    · exact absurd hempty hne
    · rw [hempty, String.append_empty]
      refine (visible_root hroot).join nofun (undotted_components ?_)
      intro piece hpiece
      rw [show split "" '/' = [""] from by decide, List.mem_singleton] at hpiece
      rw [hpiece]
      nofun
  · rw [List.concat_eq_append] at hsafe ⊢
    have hlast := hsafe last (List.mem_append_cons_self)
    obtain ⟨first, chars, hchars⟩ :=
      List.exists_cons_of_ne_nil (show last.toList ≠ [] by simpa using hlast.nonempty)
    have hlong : (last ++ suffix).toList = first :: (chars ++ suffix.toList) := by
      rw [String.toList_append, hchars, List.cons_append]
    have hpieces : ∀ piece ∈ front ++ [last ++ suffix],
        piece ≠ "" ∧ '/' ∉ piece.toList ∧ piece.toList.head? ≠ some '.' := by
      intro piece hpiece
      rcases List.mem_append.mp hpiece with hfront | hend
      · have hpart := hsafe piece (List.mem_append_left _ hfront)
        exact ⟨hpart.nonempty, hpart.noSeparator, hpart.dotfile hdots⟩
      · rw [List.mem_singleton.mp hend]
        refine ⟨?_, ?_, ?_⟩
        · intro hempty
          rw [hempty] at hlong
          nomatch hlong
        · rw [String.toList_append, List.mem_append]
          exact not_or.mpr ⟨hlast.noSeparator, hsuffix⟩
        · have hhead := hlast.dotfile hdots
          rw [hchars] at hhead
          rw [hlong]
          exact hhead
    have hsplit : split (join (front ++ [last ++ suffix]) "/") '/' = front ++ [last ++ suffix] :=
      split_join rfl (by simp) fun piece hpiece => (hpieces piece hpiece).2.1
    rw [join_append]
    refine (visible_root hroot).join ?_ (undotted_components ?_)
    · obtain ⟨piece, rest, hcons⟩ :=
        List.exists_cons_of_ne_nil (show front ++ [last ++ suffix] ≠ [] by simp)
      rw [hcons] at hpieces ⊢
      obtain ⟨hne, hseparator, -⟩ := hpieces piece List.mem_cons_self
      rw [head?_join rfl hne]
      intro hhead
      exact hseparator (List.mem_of_head? hhead)
    · rw [hsplit]
      exact fun piece hpiece => (hpieces piece hpiece).2.2

/-- An index file is visible, or lies outside. -/
theorem visible_or_outside (hdir : Visible location path)
    (hname : Undotted (PathBuf.mk text).components) :
    Visible location (path.join text) ∨ Outside location (path.join text) := by
  by_cases hrelative : text.toList.head? = some '/'
  · have hjoin : path.join text = ⟨text⟩ := if_pos hrelative
    rw [hjoin]
    by_cases hprefix : location <+: (PathBuf.mk text).components
    · obtain ⟨below, hbelow⟩ := hprefix
      refine Or.inl ⟨below, ?_, hbelow.symm⟩
      intro name hmem
      exact hname name (hbelow ▸ List.mem_append_right _ hmem)
    · exact Or.inr ⟨hname.noParent, hprefix⟩
  · exact Or.inl (hdir.join hrelative hname)

end Paths

/-! ## What a request looks up -/

/-- A request that can meet a dotfile: it asks for an encoded variant of the root, or nothing
keeps it from the listing of its directory. -/
inductive MeetsDotfiles (crates : Crates) (cfg : Config) (headers : List (Bytes × Bytes)) :
    Prop where
  | variant {data : RequestData} {encodings : List Encoding} :
      refusal cfg headers = none →
      acceptedRequest crates cfg headers = some (data, encodings) →
      data.relative = "" → encodings ≠ [] → MeetsDotfiles crates cfg headers
  | listing {data : RequestData} {encodings : List Encoding} :
      refusal cfg headers = none →
      acceptedRequest crates cfg headers = some (data, encodings) →
      cfg.directory = .listing → (!data.trailingSlash && cfg.redirectTrailingSlash) = false →
      (∀ name ∈ cfg.indexFiles,
        ((requestDir cfg data).join name).components ≠ (requestDir cfg data).components) →
      MeetsDotfiles crates cfg headers

/-- One of the entries opens, where otherwise the directory would be listed. -/
def Blocked (cfg : Config) (store : Store) (entries : List (PathBuf × String)) : Prop :=
  cfg.directory = .listing → ∃ entry ∈ entries, ∃ file, store.opens entry.1 = .ok file

/-- No directory that the request reaches is listed. -/
def NeverLists (crates : Crates) (cfg : Config) (store : Store)
    (headers : List (Bytes × Bytes)) : Prop :=
  ∀ data candidates file, refusal cfg headers = none →
    Accepts crates cfg headers data candidates →
    (!data.trailingSlash && cfg.redirectTrailingSlash) = false →
    store.opens (requestDir cfg data) = .ok file → file.stat.isDir = true →
    Blocked cfg store (indexCandidates crates cfg (requestDir cfg data))

/-- Only candidates and index files are looked up. -/
inductive LooksUp (crates : Crates) (cfg : Config) (store : Store)
    (headers : List (Bytes × Bytes)) (data : RequestData) : Phase → Op → Prop where
  | file {candidates pending : List Candidate} {candidate : Candidate} :
      refusal cfg headers = none → Accepts crates cfg headers data candidates →
      candidate :: pending <:+ candidates →
      LooksUp crates cfg store headers data (.resolvingFile pending)
        (.openStat (openRequest cfg (some data) candidate.fsPath) candidate.openCtx)
  | index {candidates : List Candidate} {pending : List (PathBuf × String)} {path : PathBuf}
      {contentType : String} :
      refusal cfg headers = none → Accepts crates cfg headers data candidates →
      (path, contentType) :: pending <:+ indexCandidates crates cfg (requestDir cfg data) →
      Blocked cfg store ((path, contentType) :: pending) →
      LooksUp crates cfg store headers data (.resolvingIndex (requestDir cfg data) pending)
        (.openStat (openRequest cfg (some data) path) ⟨none, contentType, false⟩)

section Lookups

variable {crates : Crates} {cfg : Config} {store : Store} {contents : FileHandle → Bytes}
  {headers : List (Bytes × Bytes)} {data : RequestData} {candidates : List Candidate}
  {phase phase' : Phase} {op : Op} {event : IoEvent} {reaction : Reaction}

/-- The queue of index files is used up without a listing. -/
theorem nextIndex_looksUp {pending : List (PathBuf × String)}
    (hrefusal : refusal cfg headers = none) (haccepts : Accepts crates cfg headers data candidates)
    (hsuffix : pending <:+ indexCandidates crates cfg (requestDir cfg data))
    (hblocked : Blocked cfg store pending)
    (h : (Reaction.nextIndex cfg (requestDir cfg data) pending).awaits cfg data phase =
      some (phase', op)) : LooksUp crates cfg store headers data phase' op := by
  cases pending with
  | nil =>
      rw [Reaction.nextIndex, Reaction.fallback] at h
      cases hdirectory : cfg.directory with
      | listing =>
          obtain ⟨entry, hentry, -⟩ := hblocked hdirectory
          cases hentry
      | index =>
          rw [hdirectory] at h
          cases h
      | deny =>
          rw [hdirectory] at h
          cases h
  | cons entry rest =>
      cases h
      exact .index hrefusal haccepts hsuffix hblocked

theorem atDirectory_looksUp (hrefusal : refusal cfg headers = none)
    (haccepts : Accepts crates cfg headers data candidates)
    (hblocked : (!data.trailingSlash && cfg.redirectTrailingSlash) = false →
      Blocked cfg store (indexCandidates crates cfg (requestDir cfg data)))
    (h : (Reaction.atDirectory crates cfg data).awaits cfg data phase = some (phase', op)) :
    LooksUp crates cfg store headers data phase' op := by
  rw [Reaction.atDirectory] at h
  by_cases hredirect : (!data.trailingSlash && cfg.redirectTrailingSlash) = true
  · rw [if_pos hredirect] at h
    cases h
  · rw [if_neg hredirect] at h
    by_cases hdeny : cfg.directory = .deny
    · rw [if_pos hdeny] at h
      cases h
    · rw [if_neg hdeny] at h
      exact nextIndex_looksUp hrefusal haccepts List.suffix_rfl
        (hblocked (Bool.not_eq_true _ ▸ hredirect)) h

theorem nextCandidate_looksUp {pending : List Candidate} (hrefusal : refusal cfg headers = none)
    (haccepts : Accepts crates cfg headers data candidates) (hsuffix : pending <:+ candidates)
    (h : (Reaction.nextCandidate pending).awaits cfg data phase = some (phase', op)) :
    LooksUp crates cfg store headers data phase' op := by
  cases pending with
  | nil => nomatch h
  | cons candidate rest =>
      cases h
      exact .file hrefusal haccepts hsuffix

/-- What is looked up next after a candidate. -/
theorem file_looksUp {pending : List Candidate} {candidate : Candidate}
    (hlists : NeverLists crates cfg store headers) (hrefusal : refusal cfg headers = none)
    (haccepts : Accepts crates cfg headers data candidates)
    (hsuffix : candidate :: pending <:+ candidates)
    (hyields : (store.serves contents headers).yields
      (.openStat (openRequest cfg (some data) candidate.fsPath) candidate.openCtx) event)
    (hreact : react crates cfg data (.resolvingFile pending) event = some reaction)
    (h : reaction.awaits cfg data (.resolvingFile pending) = some (phase', op)) :
    LooksUp crates cfg store headers data phase' op := by
  have hrest : pending <:+ candidates := (List.suffix_cons candidate pending).trans hsuffix
  rcases serves_open hyields with ⟨handle, file, prefetched, hopens, rfl, -, -⟩ | ⟨error, -, rfl⟩
  · unfold react at hreact
    dsimp only at hreact
    by_cases hdir : file.stat.isDir = true
    · rw [if_pos hdir] at hreact
      by_cases hencoding : candidate.openCtx.encoding.isSome = true
      · rw [if_pos hencoding] at hreact
        cases hreact
        exact nextCandidate_looksUp hrefusal haccepts hrest h
      · rw [if_neg hencoding] at hreact
        cases hreact
        obtain ⟨tried, htried⟩ := hsuffix
        obtain ⟨rawPath, relative, trailingSlash, hmounted, hresolve, hdata, hcandidates⟩ :=
          haccepts
        have hidentity : candidate.encoding = none := by
          rwa [Bool.not_eq_true, Option.isSome_eq_false_iff, Option.isNone_iff_eq_none] at hencoding
        obtain ⟨-, hpath⟩ := identity_last (hcandidates.symm.trans htried.symm) hidentity
        have haccepts' : Accepts crates cfg headers data candidates :=
          ⟨rawPath, relative, trailingSlash, hmounted, hresolve, hdata, hcandidates⟩
        refine atDirectory_looksUp hrefusal haccepts' ?_ h
        intro hredirect
        refine hlists data candidates file hrefusal haccepts' hredirect ?_ hdir
        have hrequest : requestDir cfg data = candidate.fsPath := by
          rw [hpath, hdata]
          rfl
        rw [hrequest]
        exact hopens
    · rw [if_neg hdir] at hreact
      obtain ⟨plan, -, rfl⟩ := Option.map_eq_some_iff.mp hreact
      cases h
  · simp only [react, Reaction.afterError] at hreact
    cases pending with
    | nil =>
        cases hreact
        cases h
    | cons next rest =>
        cases hreact
        exact nextCandidate_looksUp hrefusal haccepts hrest h

/-- What is looked up next after an index file. -/
theorem index_looksUp {pending : List (PathBuf × String)} {path : PathBuf} {contentType : String}
    (hrefusal : refusal cfg headers = none) (haccepts : Accepts crates cfg headers data candidates)
    (hsuffix : (path, contentType) :: pending <:+ indexCandidates crates cfg (requestDir cfg data))
    (hblocked : Blocked cfg store ((path, contentType) :: pending))
    (hyields : (store.serves contents headers).yields
      (.openStat (openRequest cfg (some data) path) ⟨none, contentType, false⟩) event)
    (hreact : react crates cfg data (.resolvingIndex (requestDir cfg data) pending) event =
      some reaction)
    (h : reaction.awaits cfg data (.resolvingIndex (requestDir cfg data) pending) =
      some (phase', op)) :
    LooksUp crates cfg store headers data phase' op := by
  rcases serves_open hyields with
    ⟨handle, file, prefetched, -, rfl, -, -⟩ | ⟨error, herror, rfl⟩
  · rw [react] at hreact
    dsimp only at hreact
    by_cases hdir : file.stat.isDir = true
    · rw [if_pos hdir, Option.isSome_none, if_neg Bool.false_ne_true] at hreact
      cases hreact
      refine atDirectory_looksUp hrefusal haccepts ?_ h
      intro _ hlisting
      obtain ⟨entry, hentry, hopens⟩ := hblocked hlisting
      exact ⟨entry, hsuffix.subset hentry, hopens⟩
    · rw [if_neg hdir] at hreact
      obtain ⟨plan, -, rfl⟩ := Option.map_eq_some_iff.mp hreact
      cases h
  · cases hreact
    refine nextIndex_looksUp hrefusal haccepts ((List.suffix_cons _ _).trans hsuffix) ?_ h
    intro hlisting
    obtain ⟨entry, hentry, file, hopens⟩ := hblocked hlisting
    rcases List.mem_cons.mp hentry with rfl | hrest
    · cases hopens.symm.trans herror
    · exact ⟨entry, hrest, file, hopens⟩

/-- A request that lists nothing looks up its candidates and index files only. -/
theorem looksUp_lookupRule (hlists : NeverLists crates cfg store headers) :
    LookupRule crates cfg (store.serves contents headers) (LooksUp crates cfg store headers)
      (fun _ => True) where
  refuse _ _ _ _ := trivial
  start := by
    rintro headers' data candidate rest rfl hrefusal haccepts
    exact .file hrefusal haccepts List.suffix_rfl
  next := by
    intro data phase op event reaction phase' op' _ hplace hyields hreact hnext
    cases hplace with
    | file hrefusal haccepts hsuffix =>
        exact file_looksUp hlists hrefusal haccepts hsuffix hyields hreact hnext
    | index hrefusal haccepts hsuffix hblocked =>
        exact index_looksUp hrefusal haccepts hsuffix hblocked hyields hreact hnext
  answer _ _ _ _ _ _ _ _ _ _ _ := trivial

end Lookups

/-! ## Two disks -/

/-- The configurations under which no dotfile is served on purpose. -/
structure HidesDotfiles (cfg : Config) (location : Location) : Prop where
  plain : ∀ name ∈ location, PlainName name
  root : cfg.root = PathBuf.ofLocation location
  serveDotfiles : cfg.serveDotfiles = false
  indexFiles : ∀ name ∈ cfg.indexFiles, Undotted (PathBuf.mk name).components
  precompressed : ∀ encoding ∈ cfg.precompressed,
    encoding ∈ [Encoding.brotli, Encoding.gzip, Encoding.zstd]

section Disks

variable {crates : Crates} {cfg : Config} {location : Location} {disk other : Disk}
  {headers : List (Bytes × Bytes)} {data : RequestData} {candidates : List Candidate}
  {phase : Phase} {op : Op}

theorem HidesDotfiles.components (h : HidesDotfiles cfg location) :
    cfg.root.components = location := by
  rw [h.root]
  exact PathBuf.components_ofLocation h.plain

/-- Negotiated encodings are configured ones. -/
theorem mem_acceptedEncodings {trailingSlash : Bool} {accept : Option String} {encoding : Encoding}
    (h : encoding ∈ acceptedEncodings crates cfg trailingSlash accept) :
    encoding ∈ cfg.precompressed := by
  simp only [acceptedEncodings] at h
  split at h
  · nomatch h
  · split at h
    · nomatch h
    · next header =>
        cases hparse : Encoding.parseAcceptEncoding crates header with
        | none =>
            rw [Encoding.negotiatePrecompressed_malformed hparse] at h
            nomatch h
        | some entries => exact ((Encoding.mem_negotiated hparse).mp h).1

theorem suffix_noSeparator {encoding : Encoding}
    (h : encoding ∈ [Encoding.brotli, Encoding.gzip, Encoding.zstd]) :
    '/' ∉ encoding.fileSuffix.toList := by
  simp only [List.mem_cons, List.not_mem_nil, or_false] at h
  rcases h with rfl | rfl | rfl <;> decide

/-- The candidates of a request are visible, unless it has encoded variants of the root. -/
theorem visible_buildFileCandidates (hroot : cfg.root.components = location)
    (hdots : cfg.serveDotfiles = false)
    (hprecompressed : ∀ encoding ∈ cfg.precompressed,
      encoding ∈ [Encoding.brotli, Encoding.gzip, Encoding.zstd])
    (haccepts : Accepts crates cfg headers data candidates)
    (hvariant : ∀ encodings, acceptedRequest crates cfg headers = some (data, encodings) →
      data.relative = "" → encodings = [])
    {candidate : Candidate} (hcandidate : candidate ∈ candidates) :
    Visible location candidate.fsPath := by
  obtain ⟨rawPath, relative, trailingSlash, hmounted, hresolve, rfl, rfl⟩ := haccepts
  rw [buildFileCandidates] at hcandidate
  rcases List.mem_append.mp hcandidate with hencoded | hidentity
  · obtain ⟨encoding, hencoding, rfl⟩ := List.mem_map.mp hencoded
    refine visible_requested hroot hdots hresolve
      (suffix_noSeparator (hprecompressed _ (mem_acceptedEncodings hencoding))) (Or.inl ?_)
    intro hempty
    have haccepted : acceptedRequest crates cfg headers =
        some (requestData (RawRequestHeaders.collect headers) relative trailingSlash,
          acceptedEncodings crates cfg trailingSlash
            (RawRequestHeaders.collect headers).acceptEncoding) := by
      unfold acceptedRequest
      dsimp only
      rw [hmounted, Option.bind_some, hresolve]
    exact List.ne_nil_of_mem hencoding (hvariant _ haccepted hempty)
  · rw [List.mem_singleton.mp hidentity]
    have hvisible := @visible_requested cfg location rawPath relative "" trailingSlash
      hroot hdots hresolve (by simp) (Or.inr rfl)
    rwa [String.append_empty] at hvisible

/-- The candidates of a request that meets no dotfile are visible. -/
theorem visible_candidate (hides : HidesDotfiles cfg location)
    (hmeets : ¬MeetsDotfiles crates cfg headers) (hrefusal : refusal cfg headers = none)
    (haccepts : Accepts crates cfg headers data candidates) {candidate : Candidate}
    (hcandidate : candidate ∈ candidates) : Visible location candidate.fsPath := by
  refine visible_buildFileCandidates hides.components hides.serveDotfiles hides.precompressed
    haccepts ?_ hcandidate
  intro encodings haccepted hempty
  by_contra hencodings
  exact hmeets (.variant hrefusal haccepted hempty hencodings)

/-- The path of a request is visible itself. -/
theorem visible_accepted (hroot : cfg.root.components = location)
    (hdots : cfg.serveDotfiles = false)
    (haccepts : Accepts crates cfg headers data candidates) :
    Visible location (requestDir cfg data) := by
  obtain ⟨rawPath, relative, trailingSlash, -, hresolve, rfl, -⟩ := haccepts
  have hvisible := @visible_requested cfg location rawPath relative "" trailingSlash
    hroot hdots hresolve (by simp) (Or.inr rfl)
  rwa [String.append_empty] at hvisible

theorem visible_requestDir (hides : HidesDotfiles cfg location)
    (haccepts : Accepts crates cfg headers data candidates) :
    Visible location (requestDir cfg data) :=
  visible_accepted hides.components hides.serveDotfiles haccepts

theorem Visible.noParent {path : PathBuf} (hplain : ∀ name ∈ location, PlainName name)
    (h : Visible location path) : ".." ∉ path.components := by
  obtain ⟨below, hbelow, hpath⟩ := h
  rw [hpath]
  intro hmem
  rcases List.mem_append.mp hmem with hfront | hback
  · exact (hplain _ hfront).ne_parent rfl
  · exact hbelow.noParent hback

/-- A request that meets no dotfile lists no directory. -/
theorem neverLists_of_not_meetsDotfiles (hides : HidesDotfiles cfg location)
    (hmeets : ¬MeetsDotfiles crates cfg headers) :
    NeverLists crates cfg (disk.store cfg) headers := by
  intro data candidates file hrefusal haccepts hredirect hopens hdir hlisting
  obtain ⟨encodings, haccepted, -⟩ :=
    @acceptedRequest_of_accepts crates cfg (disk.store cfg) headers data candidates haccepts
  by_contra hnone
  refine hmeets (.listing hrefusal haccepted hlisting hredirect ?_)
  intro name hname hsame
  refine hnone ⟨_, List.mem_map_of_mem hname, file, ?_⟩
  have hup := (visible_requestDir hides haccepts).noParent hides.plain
  exact store_opens_directory hup hsame hopens hdir

/-- Agreeing disks are alike in all that such a request looks up. -/
theorem alike_of_looksUp (hides : HidesDotfiles cfg location)
    (hagree : AgreeOutsideDotfiles location disk other)
    (hroot : CanonicalRoot disk.os cfg.root location)
    (hother : CanonicalRoot other.os cfg.root location)
    (hmeets : ¬MeetsDotfiles crates cfg headers)
    (h : LooksUp crates cfg (disk.store cfg) headers data phase op) :
    Alike (disk.store cfg) (other.store cfg) phase op := by
  cases h with
  | @file candidates pending candidate hrefusal haccepts hsuffix =>
      obtain ⟨below, hbelow, hpath⟩ := visible_candidate hides hmeets hrefusal haccepts
        (hsuffix.subset List.mem_cons_self)
      exact .opens (store_opens_congr hagree hroot hother hpath hbelow)
  | @index candidates pending path contentType hrefusal haccepts hsuffix hblocked =>
      have hentry := hsuffix.subset List.mem_cons_self
      obtain ⟨name, hname, heq⟩ := List.mem_map.mp hentry
      cases heq
      rcases visible_or_outside (visible_requestDir hides haccepts) (hides.indexFiles name hname)
        with ⟨below, hbelow, hpath⟩ | ⟨hup, houtside⟩
      · exact .opens (store_opens_congr hagree hroot hother hpath hbelow)
      · obtain ⟨error, hopens⟩ := store_opens_outside hroot hup houtside
        obtain ⟨error', hopens'⟩ := store_opens_outside hother hup houtside
        exact .misses rfl hopens hopens'

/-- A request that meets no dotfile is answered alike on disks that agree outside of them. -/
theorem sameToClient_of_not_meetsDotfiles (hides : HidesDotfiles cfg location)
    (hagree : AgreeOutsideDotfiles location disk other)
    (hroot : CanonicalRoot disk.os cfg.root location)
    (hother : CanonicalRoot other.os cfg.root location)
    (hmeets : ¬MeetsDotfiles crates cfg headers) :
    SameToClient crates cfg headers (disk.store cfg) (other.store cfg) := by
  have hrule (disk : Disk) (contents : FileHandle → Bytes) :
      LookupRule crates cfg ((disk.store cfg).serves contents headers)
        (LooksUp crates cfg (disk.store cfg) headers) (fun _ => True) :=
    looksUp_lookupRule (neverLists_of_not_meetsDotfiles hides hmeets)
  have halike : ∀ data phase op, LooksUp crates cfg (disk.store cfg) headers data phase op →
      Alike (disk.store cfg) (other.store cfg) phase op :=
    fun _ _ _ hplace => alike_of_looksUp hides hagree hroot hother hmeets hplace
  have halike' : ∀ data phase op, LooksUp crates cfg (other.store cfg) headers data phase op →
      Alike (other.store cfg) (disk.store cfg) phase op :=
    fun _ _ _ hplace => alike_of_looksUp hides hagree.symm hother hroot hmeets hplace
  constructor
  · intro answer sends
    exact ⟨receives_of_alike (hrule disk) halike, receives_of_alike (hrule other) halike'⟩
  · exact ⟨panics_of_alike (hrule disk) halike, panics_of_alike (hrule other) halike'⟩

end Disks

end EnvoyFiles.Filter
