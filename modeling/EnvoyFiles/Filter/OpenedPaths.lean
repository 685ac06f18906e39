import EnvoyFiles.Filter.Invisibility

/-!
# The paths that are opened

Where dotfiles are not served, a request opens no path through a dotfile below the root,
unless it has encoded variants of the root itself: these are named by their suffix alone.
-/

namespace EnvoyFiles.Filter

open Text Path

/-! ## Runs without refused requests -/

/-- An environment that sends the headers of accepted requests only. -/
def Env.accepting (env : Env) (cfg : Config) : Env where
  requests headers := env.requests headers ∧ refusal cfg headers = none
  completes := env.completes

section Accepting

variable {crates : Crates} {cfg : Config} {env : Env} {s t : State}

/-- A refused request moves a stream like any that is answered at once. -/
theorem refused_moves {headers : List (Bytes × Bytes)} (hphase : s.phase = .idle)
    (hrefused : refusal cfg headers ≠ none)
    (h : onRequestHeaders crates cfg s headers = some t) : Moves crates cfg env s t := by
  rcases onRequestHeaders_cases h with
    ⟨reaction, call, hrefusal, -, rfl⟩ | ⟨data, candidate, rest, hnone, -, -⟩
  · obtain ⟨status, replyHeaders, rfl, -⟩ := refusal_reply hrefusal
    exact (refuse_moves hphase status replyHeaders).1
  · exact absurd hnone hrefused

theorem allows_accepting {action : Action} (hok : env.allows s action)
    (hrefusal : ∀ headers reentry, action = .requestHeaders headers reentry →
      refusal cfg headers = none) : (env.accepting cfg).allows s action := by
  cases action with
  | requestHeaders headers reentry => exact ⟨hok, hrefusal headers reentry rfl⟩
  | _ => exact hok

/-- Every action is a sequence of moves in which no refused request is accepted. -/
theorem step_moves_accepting {action : Action} (hbatch : s.batch = [])
    (hok : env.allows s action) (h : step crates cfg s action = some t) :
    Moves crates cfg (env.accepting cfg) s t := by
  cases action with
  | requestHeaders headers reentry =>
      by_cases hrefusal : refusal cfg headers = none
      · refine (step_moves hbatch (allows_accepting hok ?_) h).1
        rintro _ _ ⟨rfl, rfl⟩
        exact hrefusal
      · simp only [step] at h
        split at h
        · next hphase _ =>
            have hmove : Move crates cfg (env.accepting cfg) s { s with reentry } :=
              Move.reentry s reentry
            exact Relation.ReflTransGen.head hmove (refused_moves hphase hrefusal h)
        · cases h
  | _ => exact (step_moves hbatch (allows_accepting hok (by simp)) h).1

/-- A predicate that is preserved where no refused request is accepted holds along every
run. -/
theorem run_invariant_accepting {I : State → Prop} {actions : List Action}
    (hmove : ∀ s t, Move crates cfg (env.accepting cfg) s t → I s → I t)
    (hinitial : I State.initial) (hrun : StreamRun crates cfg env State.initial actions s) :
    I s := by
  have hboth : I s ∧ s.batch = [] := by
    apply hrun.invariant (I := fun s => I s ∧ s.batch = []) ⟨hinitial, rfl⟩
    rintro u action v ⟨hu, hempty⟩ hok hnext
    exact ⟨Transition.closure_invariant (step_moves_accepting hempty hok hnext) hmove hu,
      (step_moves hempty hok hnext).2⟩
  exact hboth.1

end Accepting

/-! ## Visible opens -/

/-- The candidates and index files that are left to be opened. -/
def Phase.queued : Phase → List PathBuf
  | .resolvingFile pending => pending.map (·.fsPath)
  | .resolvingIndex _ pending => pending.map (·.1)
  | _ => []

theorem queued_withDepth (phase : Phase) (depth : ℕ) :
    (phase.withDepth depth).queued = phase.queued := by
  cases phase <;> rfl

/-- What has been opened, what is left to be opened and the path of the request are
visible. -/
structure OpensVisible (cfg : Config) (location : Location) (s : State) : Prop where
  opened : ∀ request, .openStat request ∈ s.trace → Visible location request.path
  queued : ∀ path ∈ s.phase.queued, Visible location path
  requested : ∀ data, s.request = some data → Visible location (requestDir cfg data)

section Opens

variable {crates : Crates} {cfg : Config} {env : Env} {location : Location} {s t : State}
  {headers : List (Bytes × Bytes)}

theorem opensVisible_initial : OpensVisible cfg location State.initial :=
  ⟨nofun, nofun, nofun⟩

/-- A call that opens nothing keeps all visible, whatever is left to be opened. -/
theorem OpensVisible.call (h : OpensVisible cfg location s) {call : Call}
    (htrace : t.trace = s.trace ++ [call]) (hcall : call.isOpen = false)
    (hqueued : ∀ path ∈ t.phase.queued, path ∈ s.phase.queued) (hrequest : t.request = s.request) :
    OpensVisible cfg location t where
  opened request hmem := by
    rw [htrace] at hmem
    rcases List.mem_append.mp hmem with hearlier | hlast
    · exact h.opened request hearlier
    · rw [← List.mem_singleton.mp hlast] at hcall
      nomatch hcall
  queued path hpath := h.queued path (hqueued path hpath)
  requested data hdata := h.requested data (hrequest ▸ hdata)

/-- So does a move that makes no call. -/
theorem OpensVisible.silent (h : OpensVisible cfg location s) (htrace : t.trace = s.trace)
    (hqueued : t.phase.queued = s.phase.queued) (hrequest : t.request = s.request) :
    OpensVisible cfg location t where
  opened := htrace ▸ h.opened
  queued := hqueued ▸ h.queued
  requested := hrequest ▸ h.requested

/-- The open of a visible path, behind which only visible ones are left. -/
theorem OpensVisible.submit (h : OpensVisible cfg location s) {request : OpenRequest}
    (htrace : t.trace = s.trace ++ [.openStat request])
    (hpath : Visible location request.path)
    (hqueued : ∀ path ∈ t.phase.queued, Visible location path)
    (hrequest : ∀ data, t.request = some data → Visible location (requestDir cfg data)) :
    OpensVisible cfg location t where
  opened other hmem := by
    rw [htrace] at hmem
    rcases List.mem_append.mp hmem with hearlier | hlast
    · exact h.opened other hearlier
    · rw [Call.openStat.inj (List.mem_singleton.mp hlast)]
      exact hpath
  queued := hqueued
  requested := hrequest

theorem Visible.join_plain {path : PathBuf} {name : String} (h : Visible location path)
    (hplain : PlainName name) (hhead : name.toList.head? ≠ some '.') :
    Visible location (path.join name) := by
  obtain ⟨below, hbelow, hpath⟩ := h
  refine ⟨below ++ [name], ?_, ?_⟩
  · intro other hother
    rcases List.mem_append.mp hother with hfront | hlast
    · exact hbelow other hfront
    · rw [List.mem_singleton.mp hlast]
      exact hhead
  · rw [PathBuf.components_join_plain hplain, hpath, List.append_assoc]

/-- The index files of a visible directory are visible. -/
theorem visible_indexCandidates (crates : Crates) {dirFs : PathBuf}
    (hindex : ∀ name ∈ cfg.indexFiles, PlainName name ∧ name.toList.head? ≠ some '.')
    (hdir : Visible location dirFs) :
    ∀ entry ∈ indexCandidates crates cfg dirFs, Visible location entry.1 := by
  intro entry hentry
  obtain ⟨name, hname, rfl⟩ := List.mem_map.mp hentry
  obtain ⟨hplain, hhead⟩ := hindex name hname
  exact hdir.join_plain hplain hhead

/-- In an environment that asks for no variant of the root, every move opens visible paths
only. -/
theorem opensVisible_move (hroot : cfg.root.components = location)
    (hdots : cfg.serveDotfiles = false)
    (hindex : ∀ name ∈ cfg.indexFiles, PlainName name ∧ name.toList.head? ≠ some '.')
    (hprecompressed : ∀ encoding ∈ cfg.precompressed,
      encoding ∈ [Encoding.brotli, Encoding.gzip, Encoding.zstd])
    (hvariant : ∀ headers data encodings, env.requests headers →
      acceptedRequest crates cfg headers = some (data, encodings) →
      data.relative = "" → encodings = [])
    (hmove : Move crates cfg env s t) (h : OpensVisible cfg location s) :
    OpensVisible cfg location t := by
  cases hmove with
  | reentry reentry => exact h.silent rfl rfl rfl
  | hook hook =>
      obtain ⟨depth, commits, -, heq⟩ := onHook_eq s hook
      rw [heq]
      exact h.call rfl rfl (fun path hpath => queued_withDepth s.phase depth ▸ hpath) rfl
  | refuse status headers _ => exact h.call rfl rfl (List.nil_subset _) rfl
  | @accept headers data candidate rest hphase hrequests haccepts =>
      have hvisible : ∀ other ∈ candidate :: rest, Visible location other.fsPath := by
        intro other hother
        exact visible_buildFileCandidates hroot hdots hprecompressed haccepts
          (fun encodings => hvariant headers data encodings hrequests) hother
      refine h.submit rfl (hvisible candidate List.mem_cons_self) ?_ ?_
      · intro path hpath
        obtain ⟨other, hother, rfl⟩ := List.mem_map.mp hpath
        exact hvisible other (List.mem_cons_of_mem _ hother)
      · intro data' hdata
        cases hdata
        exact visible_accepted hroot hdots haccepts
  | complete _ _ _ =>
      rw [deliver]
      split <;> exact h.silent rfl rfl rfl
  | commit _ => exact h.silent rfl rfl rfl
  | drain _ _ => exact h.silent rfl rfl rfl
  | openNext hbatch hread hwaker hnext =>
      cases hnext with
      | candidate hphase _ =>
          have hqueued := h.queued
          rw [hphase] at hqueued
          exact h.submit rfl (hqueued _ List.mem_cons_self)
            (fun path hpath => hqueued path (List.mem_cons_of_mem _ hpath)) h.requested
      | index hphase _ =>
          have hqueued := h.queued
          rw [hphase] at hqueued
          exact h.submit rfl (hqueued _ List.mem_cons_self)
            (fun path hpath => hqueued path (List.mem_cons_of_mem _ hpath)) h.requested
      | directory _ _ _ hrequest _ _ hindexes =>
          have hqueued := visible_indexCandidates crates hindex (h.requested _ hrequest)
          rw [requestDir, hindexes] at hqueued
          refine h.submit rfl (hqueued _ List.mem_cons_self) ?_ h.requested
          intro path hpath
          obtain ⟨entry, hentry, rfl⟩ := List.mem_map.mp hpath
          exact hqueued entry (List.mem_cons_of_mem _ hentry)
  | readDir path _ _ => exact h.call rfl rfl (fun path hpath => hpath) rfl
  | respond status headers body _ _ => exact h.call rfl rfl (List.nil_subset _) rfl
  | sendHeaders headers _ _ => exact h.call rfl rfl (List.nil_subset _) rfl
  | beginStreaming _ _ _ _ _ => exact h.call rfl rfl (List.nil_subset _) rfl
  | readOk _ hphase => exact h.silent rfl (by rw [hphase]; rfl) rfl
  | readError _ _ => exact h.call rfl rfl (List.nil_subset _) rfl
  | ignore _ _ _ => exact h.silent rfl rfl rfl
  | discard _ => exact h.silent rfl rfl rfl
  | flushMore _ _ _ _ => exact h.call rfl rfl (List.nil_subset _) rfl
  | flushLast _ _ _ _ => exact h.call rfl rfl (List.nil_subset _) rfl
  | issueSkip hphase _ _ _ => exact h.silent rfl (by rw [hphase]; rfl) rfl
  | issueRead _ _ _ _ => exact h.call rfl rfl (List.nil_subset _) rfl
  | streamComplete _ => exact h.silent rfl rfl rfl

/-! ## Variants of the root -/

/-- The environment of one request on any filesystem. -/
def asking (headers : List (Bytes × Bytes)) : Env where
  requests other := other = headers
  completes _ _ _ := True

/-- The request is accepted for the root itself, without a trailing slash, and for an
encoding. -/
def WantsRootVariant (crates : Crates) (cfg : Config) (headers : List (Bytes × Bytes)) : Prop :=
  refusal cfg headers = none ∧ ∃ data encodings,
    acceptedRequest crates cfg headers = some (data, encodings) ∧ data.relative = "" ∧
      encodings ≠ []

/-- A variant of the root is no visible path. -/
theorem rootVariant_not_visible {encoding : Encoding} (path : PathBuf)
    (h : encoding ∈ [Encoding.brotli, Encoding.gzip, Encoding.zstd]) :
    ¬Visible path.components (path.join ("" ++ encoding.fileSuffix)) := by
  rintro ⟨below, hbelow, hcomponents⟩
  obtain ⟨hplain, hdot⟩ := suffix_dotfile h
  rw [String.empty_append, PathBuf.components_join_plain hplain] at hcomponents
  refine hbelow encoding.fileSuffix ?_ hdot
  rw [← List.append_cancel_left hcomponents]
  exact List.mem_singleton_self _

/-- A request for a variant of the root opens it first. -/
theorem rootVariant_opened {data : RequestData} {encoding : Encoding} {encodings : List Encoding}
    (hrefusal : refusal cfg headers = none)
    (haccepted : acceptedRequest crates cfg headers = some (data, encoding :: encodings)) :
    ∃ t, StreamRun crates cfg (asking headers) State.initial [.requestHeaders headers []] t ∧
      .openStat (openRequest cfg (some data) (cfg.root.join (data.relative ++ encoding.fileSuffix)))
        ∈ t.trace := by
  obtain ⟨rest, haccepts⟩ := acceptedRequest_variant haccepted
  obtain ⟨t, ht⟩ := @onRequestHeaders_isSome crates cfg State.initial headers
  refine ⟨t, .single rfl ht, ?_⟩
  rcases onRequestHeaders_cases ht with
    ⟨reaction, call, hsome, -, -⟩ | ⟨data', candidate, rest', -, haccepts', rfl⟩
  · nomatch hrefusal.symm.trans hsome
  · obtain ⟨rfl, hcandidates⟩ := haccepts'.unique haccepts
    cases hcandidates
    exact List.mem_append_cons_self

/-- Where dotfiles are not served, every path a request opens is the root with components
behind it that do not start with a dot, unless the request wants a variant of the root. -/
theorem opens_visible_iff (hdots : cfg.serveDotfiles = false)
    (hindex : ∀ name ∈ cfg.indexFiles, PlainName name ∧ name.toList.head? ≠ some '.')
    (hprecompressed : ∀ encoding ∈ cfg.precompressed,
      encoding ∈ [Encoding.brotli, Encoding.gzip, Encoding.zstd])
    (headers : List (Bytes × Bytes)) :
    (∀ actions s, StreamRun crates cfg (asking headers) State.initial actions s →
        ∀ request, .openStat request ∈ s.trace →
          ∃ below, Undotted below ∧ request.path.components = cfg.root.components ++ below) ↔
      ¬WantsRootVariant crates cfg headers := by
  constructor
  · rintro hvisible ⟨hrefusal, data, encodings, haccepted, hroot, hencodings⟩
    obtain ⟨encoding, rest, rfl⟩ := List.exists_cons_of_ne_nil hencodings
    obtain ⟨t, hrun, hopened⟩ := rootVariant_opened hrefusal haccepted
    have hconfigured := acceptedRequest_precompressed haccepted encoding List.mem_cons_self
    have hshown := hvisible _ t hrun _ hopened
    rw [hroot] at hshown
    exact rootVariant_not_visible cfg.root (hprecompressed encoding hconfigured) hshown
  · intro hwants actions s hrun
    have hopens : OpensVisible cfg cfg.root.components s := by
      refine run_invariant_accepting ?_ opensVisible_initial hrun
      intro u v hmove
      refine opensVisible_move rfl hdots hindex hprecompressed ?_ hmove
      rintro headers' data encodings ⟨rfl, hrefusal⟩ haccepted hempty
      by_contra hencodings
      exact hwants ⟨hrefusal, data, encodings, haccepted, hempty, hencodings⟩
    exact hopens.opened

end Opens

theorem plainName_index : ∀ name ∈ (Config.defaults ⟨"/srv"⟩).indexFiles,
    PlainName name ∧ name.toList.head? ≠ some '.' := by
  intro name hname
  rw [List.mem_singleton.mp hname]
  exact ⟨⟨by decide, by decide, by decide, by decide⟩, by decide⟩

/-- The request for `/.` that accepts gzip opens `/srv/.gz`. -/
theorem root_variant_opens_dotfile :
    ∃ s request, StreamRun Crates.plain (Config.defaults ⟨"/srv"⟩) (asking rootHeaders)
        State.initial [.requestHeaders rootHeaders []] s ∧
      .openStat request ∈ s.trace ∧
      request.path.components = (Config.defaults ⟨"/srv"⟩).root.components ++ [".gz"] := by
  obtain ⟨hrefusal, data, hrequest, hrelative⟩ := rootHeaders_accepted
  obtain ⟨s, hrun, hopened⟩ := rootVariant_opened hrefusal hrequest
  refine ⟨s, _, hrun, hopened, ?_⟩
  rw [hrelative]
  exact PathBuf.components_join_plain plainName_gzip

/-- Without an encoding, the same request opens the root itself. -/
theorem opens_visible_root :
    ¬WantsRootVariant Crates.plain (Config.defaults ⟨"/srv"⟩) (getHeaders "/.") ∧
      ∀ actions s, StreamRun Crates.plain (Config.defaults ⟨"/srv"⟩) (asking (getHeaders "/."))
          State.initial actions s →
        ∀ request, .openStat request ∈ s.trace →
          ∃ below, Undotted below ∧ request.path.components =
            (Config.defaults ⟨"/srv"⟩).root.components ++ below := by
  have hwants : ¬WantsRootVariant Crates.plain (Config.defaults ⟨"/srv"⟩) (getHeaders "/.") := by
    rintro ⟨-, data, encodings, haccepted, -, hencodings⟩
    have hplain : (acceptedRequest Crates.plain (Config.defaults ⟨"/srv"⟩)
        (getHeaders "/.")).map Prod.snd = some [] := by
      decide
    rw [haccepted] at hplain
    exact hencodings (Option.some.inj hplain)
  exact ⟨hwants, (opens_visible_iff rfl plainName_index (by decide) _).mpr hwants⟩

end EnvoyFiles.Filter
