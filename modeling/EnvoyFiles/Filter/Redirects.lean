import EnvoyFiles.Core.PathGrammar
import EnvoyFiles.Filter.Lookup

/-!
# Trailing-slash redirects

A directory that is requested without a trailing slash is answered with a redirect
to its URL path, which is not percent-encoded.  The redirect leads back to the
directory exactly if the resolver reads nothing of the path as a query, a fragment or
an escape.
-/

namespace EnvoyFiles.Filter

open Text Path

/-! ## Re-emitted paths -/

/-- The path of a redirect below its mount prefix. -/
def reemitted (relative : String) : String :=
  "/" ++ relative ++ "/"

/-- Nothing in the path is read as a query, a fragment or an escape. -/
structure SurvivesUrl (relative : String) : Prop where
  noQuery : '?' ∉ relative.toList
  noFragment : '#' ∉ relative.toList
  noEscape : ∀ segment ∈ split relative '/', ¬HasEscape (asBytes segment)

theorem toList_slash : ("/" : String).toList = ['/'] := rfl

theorem len_slash : len "/" = 1 := by decide

/-- The characters that start a query or a fragment. -/
def isCut (c : Char) : Bool :=
  c == '?' || c == '#'

theorem stripQueryAndFragment_eq {path : String} (h : ∀ c ∈ path.toList, isCut c = false) :
    stripQueryAndFragment path = path := by
  rw [stripQueryAndFragment]
  have hkept : path.toList.takeWhile (fun c => !(c == '?' || c == '#')) = path.toList := by
    rw [List.takeWhile_eq_self_iff]
    intro c hc
    have hfree := h c hc
    rw [isCut] at hfree
    rw [hfree]
    rfl
  rw [hkept, String.ofList_toList]

section Reemitted

variable {policy : PathPolicy} {rawPath relative : String} {trailingSlash : Bool}

/-- The segments of a resolved path. -/
theorem resolved_segments
    (h : resolveRequestPath rawPath policy = .ok relative trailingSlash) :
    ∃ segments, relative = join segments "/" ∧
      (∀ segment ∈ segments, SafeComponent policy segment ∧ Permitted policy segment) ∧
      (segments ≠ [] → split relative '/' = segments) := by
  obtain ⟨-, decoded, hresolves, rfl⟩ := resolves_iff.mp ⟨trailingSlash, h⟩
  refine ⟨_, rfl, ?_, (safeRelative_join hresolves.safe).2⟩
  intro segment hsegment
  exact ⟨hresolves.safe segment hsegment,
    hresolves.permitted segment (List.mem_filter.mp hsegment).1⟩

/-- The pieces of a path between slashes. -/
theorem split_reemitted (path : String) : split ("/" ++ path) '/' = "" :: split path '/' := by
  have hempty : split "" '/' = [""] := by decide
  have happend : split ("" ++ "/" ++ path) '/' = split "" '/' ++ split path '/' :=
    split_append toList_slash
  rw [String.empty_append, hempty] at happend
  exact happend

theorem reemitted_uncut (h : ∀ c ∈ relative.toList, isCut c = false) :
    ∀ c ∈ (reemitted relative).toList, isCut c = false := by
  intro c hc
  rw [reemitted] at hc
  rw [String.toList_append, String.toList_append, toList_slash, List.mem_append,
    List.mem_append, List.mem_singleton] at hc
  rcases hc with (rfl | hc) | rfl
  · rfl
  · exact h c hc
  · rfl

/-- A re-emitted path without a cut has the segments it was made of. -/
theorem rawSegments_reemitted {segments : List String}
    (hsafe : ∀ segment ∈ segments, SafeComponent policy segment)
    (hcut : ∀ c ∈ (join segments "/").toList, isCut c = false) :
    rawSegments (reemitted (join segments "/")) = segments := by
  have hempty : split "" '/' = [""] := by decide
  have hkept : segments.filter (fun raw => !raw.isEmpty) = segments := by
    rw [List.filter_eq_self]
    intro segment hsegment
    simpa using (hsafe segment hsegment).nonempty
  have hpieces : split ("/" ++ join segments "/" ++ "/" ++ "") '/' =
      split ("/" ++ join segments "/") '/' ++ split "" '/' := split_append toList_slash
  rw [String.append_empty, split_reemitted, hempty] at hpieces
  rw [rawSegments]
  rw [stripQueryAndFragment_eq (reemitted_uncut hcut)]
  rw [reemitted]
  rw [hpieces, List.filter_append, List.filter_cons_of_neg (by simp),
    List.filter_cons_of_neg (by simp), List.filter_nil, List.append_nil]
  by_cases hnil : segments = []
  · rw [hnil]
    decide
  · rw [(safeRelative_join hsafe).2 hnil, hkept]

/-- The pieces of a path that decodes to the path it was made of are not shorter than
the decoded ones. -/
theorem decodes_length {raws decoded : List String} (h : List.Forall₂ DecodesTo raws decoded) :
    (decoded.map fun segment => len segment + 1).sum ≤
      (raws.map fun raw => len raw + 1).sum := by
  induction h with
  | nil => exact Nat.le_refl _
  | cons hfirst _ ih =>
      have hle := hfirst.bytes.length_le
      simp only [List.map_cons, List.sum_cons, len] at ih ⊢
      omega

/-- Cutting a path at a query or a fragment leaves less than the path. -/
theorem len_cut {path : String} {c : Char} (hc : c ∈ path.toList) (hcut : isCut c = true) :
    len (stripQueryAndFragment (path ++ "/")) < len path := by
  have hshort : path.toList.takeWhile (fun c => !isCut c) ≠ path.toList := by
    rw [Ne, List.takeWhile_eq_self_iff]
    intro hall
    have hfree := hall c hc
    rw [hcut] at hfree
    nomatch hfree
  have hlength : (path.toList.takeWhile fun c => !isCut c).length ≠ path.toList.length := by
    intro hlength
    exact hshort ((List.takeWhile_prefix _).eq_of_length hlength)
  have hkept : stripQueryAndFragment (path ++ "/") =
      String.ofList (path.toList.takeWhile fun c => !isCut c) := by
    change String.ofList ((path ++ "/").toList.takeWhile fun c => !isCut c) = _
    rw [String.toList_append, List.takeWhile_append, if_neg hlength]
  -- What is cut off is not empty.
  have hrest : path.toList.dropWhile (fun c => !isCut c) ≠ [] := by
    intro hnil
    have hsplit := List.takeWhile_append_dropWhile
      (p := fun c => !isCut c) (l := path.toList)
    rw [hnil, List.append_nil] at hsplit
    exact hshort hsplit
  have hpath : path = String.ofList (path.toList.takeWhile fun c => !isCut c) ++
      String.ofList (path.toList.dropWhile fun c => !isCut c) := by
    rw [← String.ofList_append, List.takeWhile_append_dropWhile, String.ofList_toList]
  have hpositive : 0 < len (String.ofList (path.toList.dropWhile fun c => !isCut c)) := by
    apply List.length_pos_of_ne_nil
    rw [Ne, asBytes_eq_nil]
    intro hempty
    exact hrest (String.ofList_injective hempty)
  have hlen := congrArg len hpath
  rw [len_append] at hlen
  rw [hkept]
  omega

/-- A path that the resolver does not read as it stands loses bytes. -/
theorem uncut_of_decodes {segments decoded : List String}
    (hdecodes : List.Forall₂ DecodesTo (rawSegments (reemitted relative)) decoded)
    (hsplit : split relative '/' = segments)
    (hsegments : decoded.filter (· ≠ ".") = segments) :
    ∀ c ∈ relative.toList, isCut c = false := by
  intro c hc
  by_contra hcut
  rw [Bool.not_eq_false] at hcut
  have hstrip : stripQueryAndFragment (reemitted relative) =
      "/" ++ stripQueryAndFragment (relative ++ "/") := by
    have hchars : (reemitted relative).toList = '/' :: (relative ++ "/").toList := by
      rw [reemitted]
      rw [String.append_assoc, String.toList_append, toList_slash, List.singleton_append]
    simp only [stripQueryAndFragment]
    rw [hchars, List.takeWhile_cons_of_pos (by decide)]
    generalize (relative ++ "/").toList.takeWhile _ = kept
    apply String.toList_inj.mp
    rw [String.toList_append, toList_slash, String.toList_ofList, String.toList_ofList,
      List.singleton_append]
  -- Decoding, and dropping what is empty or a dot, adds no bytes.
  have hraws : (rawSegments (reemitted relative)).Sublist
      (split (stripQueryAndFragment (relative ++ "/")) '/') := by
    rw [rawSegments]
    rw [hstrip, split_reemitted, List.filter_cons_of_neg (by simp)]
    exact List.filter_sublist
  have hrawSum := (hraws.map fun raw => len raw + 1).sum_le_sum (fun _ _ => Nat.zero_le _)
  have hdecodedSum := decodes_length hdecodes
  have hkept : segments.Sublist decoded := by
    rw [← hsegments]
    exact List.filter_sublist
  have hkeptSum := (hkept.map fun raw => len raw + 1).sum_le_sum (fun _ _ => Nat.zero_le _)
  have hwhole := len_split relative toList_slash len_slash
  have hcutWhole := len_split (stripQueryAndFragment (relative ++ "/")) toList_slash len_slash
  have hless := len_cut hc hcut
  rw [hsplit] at hwhole
  omega

/-- A resolved path leads back to itself exactly if nothing in it is read otherwise. -/
theorem resolve_reemitted
    (h : resolveRequestPath rawPath policy = .ok relative trailingSlash)
    (hlen : len (reemitted relative) ≤ policy.maxPathLen) :
    resolveRequestPath (reemitted relative) policy = .ok relative true ↔
      SurvivesUrl relative := by
  obtain ⟨segments, rfl, hsegments, hsplit⟩ := resolved_segments h
  have hsafe : ∀ segment ∈ segments, SafeComponent policy segment :=
    fun segment hsegment => (hsegments segment hsegment).1
  constructor
  · intro hresolve
    obtain ⟨-, decoded, hresolves, hrelative⟩ := resolves_iff.mp ⟨true, hresolve⟩
    by_cases hnil : segments = []
    · subst hnil
      refine ⟨by decide, by decide, ?_⟩
      intro segment hsegment
      rw [show split (join [] "/") '/' = [""] from by decide, List.mem_singleton] at hsegment
      rw [hsegment]
      rintro ⟨high, low, hpart, -⟩
      nomatch List.infix_nil.mp hpart
    · have hpieces := hsplit hnil
      have hfilter : decoded.filter (· ≠ ".") = segments := by
        rw [← hpieces, hrelative]
        refine ((safeRelative_join hresolves.safe).2 ?_).symm
        intro hempty
        rw [hrelative, hempty, show split (join [] "/") '/' = [""] from by decide] at hpieces
        exact (hsafe "" (hpieces ▸ List.mem_singleton_self _)).nonempty rfl
      have huncut := uncut_of_decodes hresolves.decodes hpieces hfilter
      have hdecodes := hresolves.decodes
      rw [rawSegments_reemitted hsafe huncut] at hdecodes
      have hsame : segments = decoded := by
        apply List.Sublist.eq_of_length
        · rw [← hfilter]
          exact List.filter_sublist
        · exact hdecodes.length_eq
      rw [← hsame, List.forall₂_same] at hdecodes
      refine ⟨?_, ?_, ?_⟩
      · intro hquery
        nomatch huncut '?' hquery
      · intro hfragment
        nomatch huncut '#' hfragment
      · intro segment hsegment
        rw [hpieces] at hsegment
        exact unescaped_self_iff.mp (hdecodes segment hsegment).bytes
  · intro hsurvives
    have huncut : ∀ c ∈ (join segments "/").toList, isCut c = false := by
      intro c hc
      rw [isCut]
      rw [Bool.or_eq_false_iff, beq_eq_false_iff_ne, beq_eq_false_iff_ne]
      exact ⟨fun hquery => hsurvives.noQuery (hquery ▸ hc),
        fun hfragment => hsurvives.noFragment (hfragment ▸ hc)⟩
    have hresolves : Resolves policy (reemitted (join segments "/")) segments := by
      constructor
      · rw [rawSegments_reemitted hsafe huncut, List.forall₂_same]
        intro segment hsegment
        refine ⟨unescaped_self_iff.mpr ?_, (hsafe segment hsegment).noSeparator⟩
        apply hsurvives.noEscape
        rw [hsplit (List.ne_nil_of_mem hsegment)]
        exact hsegment
      · exact fun segment hsegment => (hsegments segment hsegment).2
    have hkept : segments.filter (· ≠ ".") = segments := by
      rw [List.filter_eq_self]
      intro segment hsegment
      exact decide_eq_true (hsafe segment hsegment).notDot
    obtain ⟨trailing, hresolve⟩ :=
      resolves_iff.mpr ⟨hlen, segments, hresolves, (congrArg (join · "/") hkept).symm⟩
    have htrailing := resolve_trailing hresolve
    rw [stripQueryAndFragment_eq (reemitted_uncut huncut)] at htrailing
    rw [hresolve, htrailing]
    rw [reemitted]
    rw [String.toList_append, toList_slash, List.getLast?_concat]
    rfl

end Reemitted

/-! ## The Location of a redirect -/

/-- The location of a directory is its re-emitted path behind the mount prefix. -/
theorem location_eq (cfg : Config) (relative : String) :
    urlFor cfg relative ++ "/" = cfg.stripPrefix.getD "" ++ reemitted relative := by
  unfold urlFor reemitted
  dsimp only
  split
  · next hempty =>
      rw [String.isEmpty_iff.mp hempty, String.append_empty, String.append_assoc]
  · rw [String.append_assoc, String.append_assoc, String.append_assoc]

theorem reemitted_head (relative : String) : (reemitted relative).toList.head? = some '/' := by
  rw [reemitted]
  rw [String.append_assoc, String.toList_append]
  rfl

/-- Below any mount prefix, the location of a directory is its re-emitted path. -/
theorem mountedPath_location (cfg : Config) (relative : String) :
    mountedPath cfg (urlFor cfg relative ++ "/") = some (reemitted relative) := by
  rw [location_eq]
  rw [mountedPath]
  cases cfg.stripPrefix with
  | none => exact congrArg some String.empty_append
  | some pre =>
      dsimp only [Option.getD_some]
      rw [stripMountPrefix]
      rw [stripPrefix_append]
      dsimp only
      rw [reemitted_head]
      rfl

section Answers

variable {crates : Crates} {cfg : Config} {env : Env} {data : RequestData}

/-- If the reaction redirects, it redirects a request for a directory below the root. -/
def RedirectsRequest (cfg : Config) (requests : List (Bytes × Bytes) → Prop)
    (reaction : Reaction) : Prop :=
  ∀ headers body, reaction = .reply 301 headers body →
    ∃ requestHeaders rawPath relative, requests requestHeaders ∧
      mountedPath cfg ((RawRequestHeaders.collect requestHeaders).path.getD "") = some rawPath ∧
      resolveRequestPath rawPath (pathPolicy cfg) = .ok relative false ∧
      cfg.redirectTrailingSlash = true ∧
      headers = [("location", urlFor cfg relative ++ "/")] ∧ body = none

theorem statusForIoError_ne_redirect (kind : ErrorKind) (rawOsError : Option ℤ) :
    statusForIoError kind rawOsError ≠ 301 := by
  cases kind with
  | other =>
      unfold statusForIoError
      dsimp only
      split <;> decide
  | _ => nofun

/-- Only a directory that is asked for without a trailing slash is redirected. -/
theorem react_redirect {phase : Phase} {event : IoEvent} {status : ℕ}
    {headers : List (String × String)} {body : Option Bytes} (hstatus : status = 301)
    (h : react crates cfg data phase event = some (.reply status headers body)) :
    data.trailingSlash = false ∧ cfg.redirectTrailingSlash = true ∧
      headers = [("location", urlFor cfg data.relative ++ "/")] ∧ body = none := by
  cases react_cases h with
  | redirect hslash hredirect => exact ⟨hslash, hredirect, rfl, rfl⟩
  | failed => exact absurd hstatus (statusForIoError_ne_redirect _ _)
  | missing => nomatch hstatus
  | denied _ => nomatch hstatus
  | page _ => nomatch hstatus

/-- A resolution ends in a redirect only where its request path has no trailing
slash. -/
theorem redirects_lookupRule (crates : Crates) (cfg : Config) (env : Env) :
    LookupRule crates cfg env
      (fun data _ _ => ∃ headers candidates, env.requests headers ∧
        Accepts crates cfg headers data candidates)
      (RedirectsRequest cfg env.requests) where
  refuse := by
    rintro headers reaction - hrefusal _ _ rfl
    obtain ⟨status, replyHeaders, hreply, hstatus⟩ := refusal_reply hrefusal
    cases hreply
    exact absurd hstatus (by decide)
  start := by
    intro headers data candidate rest hrequests _ haccepts
    exact ⟨headers, candidate :: rest, hrequests, haccepts⟩
  next := by
    intro _ _ _ _ _ _ _ _ hplace _ _ _
    exact hplace
  answer := by
    rintro data phase op event reaction call - hplace - hreact - headers body rfl
    obtain ⟨requestHeaders, candidates, hrequests, haccepts⟩ := hplace
    obtain ⟨htrailing, hredirect, hheaders, hbody⟩ := react_redirect rfl hreact
    obtain ⟨rawPath, relative, trailingSlash, hmounted, hresolve, rfl, -⟩ := haccepts
    change trailingSlash = false at htrailing
    subst htrailing
    exact ⟨requestHeaders, rawPath, relative, hrequests, hmounted, hresolve, hredirect,
      hheaders, hbody⟩

/-- The location of every redirect leads back to the directory of the request exactly
if the path of the directory survives being sent without percent-encoding. -/
theorem redirect_leads_back_iff {actions : List Action} {s : State}
    (hrun : StreamRun crates cfg env State.initial actions s)
    {headers : List (String × String)} {body : Option Bytes}
    (hanswer : s.answer = some (.sendResponse 301 headers body)) :
    ∃ requestHeaders reentry rawPath relative location stripped,
      .requestHeaders requestHeaders reentry ∈ actions ∧
      mountedPath cfg ((RawRequestHeaders.collect requestHeaders).path.getD "") = some rawPath ∧
      resolveRequestPath rawPath (pathPolicy cfg) = .ok relative false ∧
      headers = [("location", location)] ∧
      mountedPath cfg location = some stripped ∧
      (len stripped ≤ (pathPolicy cfg).maxPathLen →
        (resolveRequestPath stripped (pathPolicy cfg) = .ok relative true ↔
          SurvivesUrl relative)) := by
  have hlooking := lookup_rule (redirects_lookupRule crates cfg (env.sending actions))
    (run_sending hrun)
  obtain ⟨w, reaction, -, hgood, hreaction, -⟩ := hlooking.answer_good hanswer
  have hreply : reaction = .reply 301 headers body := reply_of_answer hreaction
  obtain ⟨requestHeaders, rawPath, relative, ⟨reentry, hmem⟩, hmounted, hresolve, -, rfl, -⟩ :=
    hgood headers body hreply
  exact ⟨requestHeaders, reentry, rawPath, relative, _, reemitted relative, hmem, hmounted,
    hresolve, rfl, mountedPath_location cfg relative, resolve_reemitted hresolve⟩

end Answers

/-- The request of a directory. -/
def directoryActions (path : String) : List Action :=
  [.requestHeaders (getHeaders path) [],
    .complete 0 (.openStat (.ok (⟨1⟩, ⟨0, 0, 0, true⟩, []))), .commit, .scheduled []]

/-- The run of a request of a directory, with the default configuration. -/
def directoryRun (path : String) : Option State :=
  replay Crates.plain (Config.defaults ⟨"/srv"⟩) State.initial (directoryActions path)

theorem redirect_leads_back_iff_space :
    SurvivesUrl "a b" ∧
      resolveRequestPath "/a b/" (pathPolicy (Config.defaults ⟨"/srv"⟩)) = .ok "a b" true := by
  have hanswer : (directoryRun "/a%20b").map State.answer =
      some (some (.sendResponse 301 [("location", "/a b/")] none)) := by decide
  obtain ⟨s, hs, hanswer⟩ := Option.map_eq_some_iff.mp hanswer
  obtain ⟨requestHeaders, reentry, rawPath, relative, location, stripped, hmem, hmounted,
    hresolve, hheaders, hlocation, hback⟩ :=
    redirect_leads_back_iff (Transition.Run.of_foldlM any_allows hs) hanswer
  obtain ⟨rfl, rfl⟩ : requestHeaders = getHeaders "/a%20b" ∧ reentry = [] := by
    simpa [directoryActions] using hmem
  cases hheaders
  have hstripped : mountedPath (Config.defaults ⟨"/srv"⟩) "/a b/" = some "/a b/" := rfl
  cases hstripped.symm.trans hlocation
  have hraw : mountedPath (Config.defaults ⟨"/srv"⟩)
      ((RawRequestHeaders.collect (getHeaders "/a%20b")).path.getD "") = some "/a%20b" := by
    decide
  cases hraw.symm.trans hmounted
  have hresolved : resolveRequestPath "/a%20b" (pathPolicy (Config.defaults ⟨"/srv"⟩)) =
      .ok "a b" false := by decide
  cases hresolved.symm.trans hresolve
  have hagain : resolveRequestPath "/a b/" (pathPolicy (Config.defaults ⟨"/srv"⟩)) =
      .ok "a b" true := by decide
  exact ⟨(hback (by decide)).mp hagain, hagain⟩

/-- The directory `a?b` redirects to the path `a`. -/
theorem redirect_loses_question_mark :
    (directoryRun "/a%3Fb").map State.answer =
        some (some (.sendResponse 301 [("location", "/a?b/")] none)) ∧
      resolveRequestPath "/a%3Fb" (pathPolicy (Config.defaults ⟨"/srv"⟩)) = .ok "a?b" false ∧
      mountedPath (Config.defaults ⟨"/srv"⟩) "/a?b/" = some "/a?b/" ∧
      len "/a?b/" ≤ (pathPolicy (Config.defaults ⟨"/srv"⟩)).maxPathLen ∧
      resolveRequestPath "/a?b/" (pathPolicy (Config.defaults ⟨"/srv"⟩)) = .ok "a" false := by
  refine ⟨?_, ?_, rfl, ?_, ?_⟩
  · decide
  · decide
  · decide
  · decide

end EnvoyFiles.Filter
