import EnvoyFiles.Core.SingleRange
import EnvoyFiles.Filter.SequentialLookup

/-!
# The walk of a lookup

On a filesystem that does not change, what the filter asks for next depends on the answer
to what it has asked for.  `walk` follows these queries; it need not end, as an index
file that is a directory leads back to itself.  A request is answered with what its walk
finds, and it is answered if its walk ends.
-/

namespace EnvoyFiles.Filter

/-! ## Queries -/

/-- What a lookup asks the filesystem for. -/
inductive Query where
  | opens (phase : Phase) (path : PathBuf) (ctx : OpenCtx)
  | lists (phase : Phase) (path : PathBuf)

def Query.phase : Query → Phase
  | .opens phase _ _ => phase
  | .lists phase _ => phase

def Query.op (cfg : Config) (data : RequestData) : Query → Op
  | .opens _ path ctx => .openStat (openRequest cfg (some data) path) ctx
  | .lists _ path => .readDir path

/-- The first query of a request. -/
def Query.first (candidate : Candidate) (rest : List Candidate) : Query :=
  .opens (.resolvingFile rest) candidate.fsPath candidate.openCtx

/-- What a reaction leads to: an outcome, or the next query.  A reaction that drops an
event leads to neither. -/
def Reaction.leads (phase : Phase) : Reaction → Option (Outcome ⊕ Query)
  | .seek phase' path ctx => some (.inr (.opens phase' path ctx))
  | .list path => some (.inr (.lists phase path))
  | .reply status headers _ => some (.inl (.reply status headers))
  | _ => none

/-- What the answer to a query leads to. -/
def Query.leads (crates : Crates) (cfg : Config) (store : Store) (data : RequestData) :
    Query → Option (Outcome ⊕ Query)
  | .opens phase path ctx =>
      match store.opens path with
      | .error error => (Reaction.afterError cfg error phase).leads phase
      | .ok file =>
          if file.stat.isDir then
            if ctx.encoding.isSome then (Reaction.afterMiss cfg phase).leads phase
            else (Reaction.atDirectory crates cfg data).leads phase
          else some (.inl (.file file ctx))
  | .lists _ path =>
      match store.lists path with
      | .error error => some (.inl (errorOutcome error))
      | .ok entries => some (.inl (.page entries))

/-- What at most `n` queries find. -/
def walk (crates : Crates) (cfg : Config) (store : Store) (data : RequestData) :
    ℕ → Query → Option Outcome
  | 0, _ => none
  | n + 1, query =>
      match query.leads crates cfg store data with
      | some (.inl outcome) => some outcome
      | some (.inr next) => walk crates cfg store data n next
      | none => none

/-- The walk from a query ends with an outcome. -/
def Finds (crates : Crates) (cfg : Config) (store : Store) (data : RequestData)
    (query : Query) (outcome : Outcome) : Prop :=
  ∃ n, walk crates cfg store data n query = some outcome

section Walks

variable {crates : Crates} {cfg : Config} {store : Store} {data : RequestData}
  {query next : Query} {outcome outcome' : Outcome} {n m : ℕ}

section Opens

variable {phase : Phase} {path : PathBuf} {ctx : OpenCtx} {file : StoredFile} {error : IoError}

theorem leads_of_error (h : store.opens path = .error error) :
    (Query.opens phase path ctx).leads crates cfg store data =
      (Reaction.afterError cfg error phase).leads phase := by
  simp only [Query.leads, h]

theorem leads_of_file (h : store.opens path = .ok file) (hfile : file.stat.isDir = false) :
    (Query.opens phase path ctx).leads crates cfg store data = some (.inl (.file file ctx)) := by
  simp only [Query.leads, h, hfile, Bool.false_eq_true, ↓reduceIte]

theorem leads_of_directory (h : store.opens path = .ok file) (hdir : file.stat.isDir = true) :
    (Query.opens phase path ctx).leads crates cfg store data =
      if ctx.encoding.isSome then (Reaction.afterMiss cfg phase).leads phase
      else (Reaction.atDirectory crates cfg data).leads phase := by
  simp only [Query.leads, h, hdir, ↓reduceIte]

end Opens

theorem finds_iff_succ : Finds crates cfg store data query outcome ↔
    ∃ n, walk crates cfg store data (n + 1) query = some outcome := by
  constructor
  · rintro ⟨n, hn⟩
    cases n with
    | zero => cases hn
    | succ n => exact ⟨n, hn⟩
  · rintro ⟨n, hn⟩
    exact ⟨n + 1, hn⟩

theorem finds_ends (h : query.leads crates cfg store data = some (.inl outcome')) :
    Finds crates cfg store data query outcome ↔ outcome = outcome' := by
  rw [finds_iff_succ]
  simp only [walk, h, exists_const, Option.some.injEq]
  exact eq_comm

theorem finds_next (h : query.leads crates cfg store data = some (.inr next)) :
    Finds crates cfg store data query outcome ↔ Finds crates cfg store data next outcome := by
  rw [finds_iff_succ]
  simp only [walk, h]
  exact Iff.rfl

/-- Only an open of a regular file ends a walk with a file. -/
theorem leads_file {opened : StoredFile} {ctx : OpenCtx}
    (h : query.leads crates cfg store data = some (.inl (.file opened ctx))) :
    opened.stat.isDir = false := by
  have hreaction : ∀ (reaction : Reaction) (phase : Phase),
      reaction.leads phase ≠ some (.inl (.file opened ctx)) := by
    intro reaction phase
    cases reaction <;> nofun
  cases query with
  | opens phase path ctx' =>
      unfold Query.leads at h
      dsimp only at h
      split at h
      · exact absurd h (hreaction _ _)
      · split at h
        · split at h
          · exact absurd h (hreaction _ _)
          · exact absurd h (hreaction _ _)
        · next hfile =>
            cases h
            exact Bool.eq_false_of_not_eq_true hfile
  | lists phase path =>
      unfold Query.leads at h
      dsimp only at h
      split at h <;> nomatch h

/-- A walk ends with one outcome. -/
theorem walk_unique (h : walk crates cfg store data n query = some outcome)
    (h' : walk crates cfg store data m query = some outcome') : outcome = outcome' := by
  induction n generalizing m query with
  | zero => nomatch h
  | succ n ih =>
      cases m with
      | zero => nomatch h'
      | succ m =>
          rw [walk] at h h'
          cases hleads : query.leads crates cfg store data with
          | none =>
              rw [hleads] at h
              nomatch h
          | some step =>
              rw [hleads] at h h'
              cases step with
              | inl found =>
                  cases h
                  cases h'
                  rfl
              | inr next => exact ih h h'

theorem Finds.unique (h : Finds crates cfg store data query outcome)
    (h' : Finds crates cfg store data query outcome') : outcome = outcome' := by
  obtain ⟨n, hn⟩ := h
  obtain ⟨m, hm⟩ := h'
  exact walk_unique hn hm

/-- A file that is found is not a directory. -/
theorem walk_file {opened : StoredFile} {ctx : OpenCtx}
    (h : walk crates cfg store data n query = some (.file opened ctx)) :
    opened.stat.isDir = false := by
  induction n generalizing query with
  | zero => nomatch h
  | succ n ih =>
      rw [walk] at h
      split at h
      · next outcome hleads =>
          cases h
          exact leads_file hleads
      · exact ih h
      · nomatch h

/-- The queries that a walk still takes. -/
noncomputable def walkLength (crates : Crates) (cfg : Config) (store : Store)
    (data : RequestData) (query : Query) : ℕ :=
  sInf {n | (walk crates cfg store data n query).isSome}

theorem walkLength_next (hleads : query.leads crates cfg store data = some (.inr next))
    (h : Finds crates cfg store data query outcome) :
    walkLength crates cfg store data next < walkLength crates cfg store data query := by
  obtain ⟨n, hn⟩ := h
  have hends : (walk crates cfg store data (walkLength crates cfg store data query)
      query).isSome :=
    Nat.sInf_mem (s := {n | (walk crates cfg store data n query).isSome})
      ⟨n, Option.isSome_iff_exists.mpr ⟨outcome, hn⟩⟩
  cases hlength : walkLength crates cfg store data query with
  | zero =>
      rw [hlength] at hends
      nomatch hends
  | succ k =>
      rw [hlength] at hends
      rw [walk] at hends
      rw [hleads] at hends
      exact Nat.lt_succ_of_le (Nat.sInf_le hends)

end Walks

/-! ## What the filter does with an answer -/

/-- What the reaction to an answer does to the walk.  There is no reaction only where the
response cannot be built. -/
inductive Follows (crates : Crates) (cfg : Config) (store : Store)
    (contents : FileHandle → Bytes) (data : RequestData) (query : Query) :
    Option Reaction → Prop where
  | ends {outcome : Outcome} {reaction : Reaction} :
      query.leads crates cfg store data = some (.inl outcome) →
      Realizes crates cfg contents data outcome reaction →
      Follows crates cfg store contents data query (some reaction)
  | goesOn {next : Query} {reaction : Reaction} :
      query.leads crates cfg store data = some (.inr next) →
      reaction.awaits cfg data query.phase = some (next.phase, next.op cfg data) →
      Follows crates cfg store contents data query (some reaction)
  | panics {outcome : Outcome} :
      query.leads crates cfg store data = some (.inl outcome) →
      outcome.response crates cfg data = none →
      Follows crates cfg store contents data query none
  | ignores {reaction : Reaction} : query.leads crates cfg store data = none →
      reaction.awaits cfg data query.phase = none → reaction.answer cfg = none →
      Follows crates cfg store contents data query (some reaction)

section Following

variable {crates : Crates} {cfg : Config} {store : Store} {contents : FileHandle → Bytes}
  {headers : List (Bytes × Bytes)} {data : RequestData} {query : Query} {event : IoEvent}
  {reaction : Reaction}

/-- A reaction that sends no content does what it leads to. -/
theorem follows_of_bare (hleads : query.leads crates cfg store data =
      reaction.leads query.phase) (hbare : reaction.Bare) :
    Follows crates cfg store contents data query (some reaction) := by
  cases reaction with
  | seek phase path ctx => exact .goesOn hleads rfl
  | list path => exact .goesOn hleads rfl
  | reply status headers body =>
      cases body with
      | none => exact .ends hleads .reply
      | some html => exact hbare.elim
  | serve plan handle prefetched => exact hbare.elim
  | ignore => exact .ignores hleads rfl rfl

/-- A regular file is served. -/
theorem file_follows {opened : StoredFile} {ctx : OpenCtx} {handle : FileHandle}
    {prefetched : Bytes}
    (hleads : query.leads crates cfg store data = some (.inl (.file opened ctx)))
    (hfile : opened.stat.isDir = false) (hprefetch : prefetched <+: opened.content)
    (hcontent : contents handle = opened.content) :
    Follows crates cfg store contents data query
      (react crates cfg data query.phase (.opened handle opened.stat ctx prefetched)) := by
  rcases @opened_realizes crates cfg contents data query.phase opened ctx handle prefetched hfile
    hprefetch hcontent with ⟨reaction, hreact, hrealizes⟩ | ⟨hreact, hnone⟩
  · rw [hreact]
    exact .ends hleads hrealizes
  · rw [hreact]
    exact .panics hleads hnone

/-- Every reaction to what the store delivers follows the walk. -/
theorem query_follows (crates : Crates)
    (hyields : (store.serves contents headers).yields (query.op cfg data) event) :
    Follows crates cfg store contents data query (react crates cfg data query.phase event) := by
  cases query with
  | opens phase path ctx =>
      rcases serves_open hyields with
        ⟨handle, opened, prefetched, hopens, rfl, hprefetch, hcontent⟩ | ⟨error, hopens, rfl⟩
      · change store.opens path = _ at hopens
        cases hdir : opened.stat.isDir with
        | false => exact file_follows (leads_of_file hopens hdir) hdir hprefetch (hcontent hdir)
        | true =>
            have hreact : react crates cfg data phase
                (.opened handle opened.stat ctx prefetched) =
                  if ctx.encoding.isSome then some (.afterMiss cfg phase)
                  else some (.atDirectory crates cfg data) := if_pos hdir
            have hleads :=
              @leads_of_directory crates cfg store data phase path ctx opened hopens hdir
            rw [Query.phase, hreact]
            split at hleads
            · next hencoded =>
                rw [if_pos hencoded]
                exact follows_of_bare hleads (afterMiss_bare phase)
            · next hplain =>
                rw [if_neg hplain]
                exact follows_of_bare hleads atDirectory_bare
      · change store.opens path = _ at hopens
        exact follows_of_bare (leads_of_error hopens) (afterError_bare error phase)
  | lists phase path =>
      rw [serves_list hyields]
      unfold react
      dsimp only
      cases hlists : store.lists path with
      | error error =>
          refine .ends ?_ .reply
          unfold Query.leads
          dsimp only
          rw [hlists]
          rfl
      | ok entries =>
          have hleads : (Query.lists phase path).leads crates cfg store data =
              some (.inl (.page entries)) := by
            unfold Query.leads
            dsimp only
            rw [hlists]
          unfold Reaction.ofListing
          dsimp only
          cases hpage : listingPage crates cfg data entries with
          | none =>
              refine .panics hleads ?_
              unfold Outcome.response
              dsimp only
              rw [hpage, Option.map_none]
          | some html => exact .ends hleads (.page hpage)

section Reactions

variable {phase : Phase} {op : Op} {reaction : Reaction}

/-- A reaction that awaits something goes on to the next query. -/
theorem Follows.next (h : Follows crates cfg store contents data query (some reaction))
    (hnext : reaction.awaits cfg data query.phase = some (phase, op)) :
    ∃ next, query.leads crates cfg store data = some (.inr next) ∧
      phase = next.phase ∧ op = next.op cfg data := by
  cases h with
  | ends _ hrealizes =>
      rw [realizes_awaits hrealizes] at hnext
      cases hnext
  | @goesOn next _ hleads hawaits =>
      cases hnext.symm.trans hawaits
      exact ⟨next, hleads, rfl, rfl⟩
  | ignores _ hnone _ => cases hnext.symm.trans hnone

end Reactions

end Following

/-! ## Requests -/

/-- A request is accepted, and its lookup starts with the query. -/
def Starts (crates : Crates) (cfg : Config) (headers : List (Bytes × Bytes))
    (data : RequestData) (query : Query) : Prop :=
  refusal cfg headers = none ∧ ∃ candidate rest,
    Accepts crates cfg headers data (candidate :: rest) ∧ query = .first candidate rest

/-- The response to a request: a refusal, or the response to what its walk finds. -/
inductive Replies (crates : Crates) (cfg : Config) (store : Store)
    (headers : List (Bytes × Bytes)) : Response → Prop where
  | refused {reaction : Reaction} {call : Call} : refusal cfg headers = some reaction →
      reaction.answer cfg = some call → Replies crates cfg store headers ⟨call, []⟩
  | found {data : RequestData} {query : Query} {outcome : Outcome} {response : Response} :
      Starts crates cfg headers data query → Finds crates cfg store data query outcome →
      outcome.response crates cfg data = some response →
      Replies crates cfg store headers response

/-- What the filter awaits is the answer to a query of the walk. -/
def AwaitsQuery (crates : Crates) (cfg : Config) (store : Store) (headers : List (Bytes × Bytes))
    (data : RequestData) (phase : Phase) (op : Op) : Prop :=
  ∃ first query, Starts crates cfg headers data first ∧ query.phase = phase ∧
    query.op cfg data = op ∧ ∀ outcome, Finds crates cfg store data query outcome ↔
      Finds crates cfg store data first outcome

/-- What the filter answers with is what the walk finds. -/
def AnswersWalk (crates : Crates) (cfg : Config) (store : Store) (contents : FileHandle → Bytes)
    (headers : List (Bytes × Bytes)) (reaction : Reaction) : Prop :=
  refusal cfg headers = some reaction ∨ ∃ data first outcome,
    Starts crates cfg headers data first ∧ Finds crates cfg store data first outcome ∧
      Realizes crates cfg contents data outcome reaction

/-- The first `:status` of the response. -/
def HasStatus (replyHeaders : List (String × String)) (status : ℕ) : Prop :=
  replyHeaders.lookup ":status" = some (toString status)

theorem hasStatus_responseHeaders {plan : ResponsePlan} {status : ℕ} :
    HasStatus (responseHeaders plan) status ↔ plan.status = status := by
  have hfirst : (responseHeaders plan).lookup ":status" = some (toString plan.status) := rfl
  rw [HasStatus, hfirst, Option.some_inj]
  constructor
  · exact toString_injective
  · rintro rfl
    rfl

section Requests

variable {crates : Crates} {cfg : Config} {store : Store} {contents : FileHandle → Bytes}
  {headers : List (Bytes × Bytes)} {data data' : RequestData} {query query' : Query}
  {response response' : Response} {s : State} {actions : List Action} {call : Call}

theorem Starts.unique (h : Starts crates cfg headers data query)
    (h' : Starts crates cfg headers data' query') : data' = data ∧ query' = query := by
  obtain ⟨-, candidate, rest, haccepts, rfl⟩ := h
  obtain ⟨-, candidate', rest', haccepts', rfl⟩ := h'
  obtain ⟨hdata, hcandidates⟩ := haccepts.unique haccepts'
  cases hcandidates
  exact ⟨hdata, rfl⟩

/-- A request has one response. -/
theorem Replies.unique (h : Replies crates cfg store headers response)
    (h' : Replies crates cfg store headers response') : response = response' := by
  cases h with
  | refused hrefusal hanswer =>
      cases h' with
      | refused hrefusal' hanswer' =>
          cases hrefusal.symm.trans hrefusal'
          cases hanswer.symm.trans hanswer'
          rfl
      | found hstarts' _ _ => nomatch hrefusal.symm.trans hstarts'.1
  | found hstarts hfinds hresponse =>
      cases h' with
      | refused hrefusal' _ => nomatch hrefusal'.symm.trans hstarts.1
      | found hstarts' hfinds' hresponse' =>
          obtain ⟨rfl, rfl⟩ := hstarts.unique hstarts'
          cases hfinds.unique hfinds'
          exact Option.some.inj (hresponse.symm.trans hresponse')

/-- Behind response headers stands a regular file and its plan. -/
theorem Replies.file {replyHeaders : List (String × String)} {endStream : Bool} {sent : Bytes}
    (h : Replies crates cfg store headers ⟨.sendResponseHeaders replyHeaders endStream, sent⟩) :
    ∃ data query opened ctx plan, Starts crates cfg headers data query ∧
      Finds crates cfg store data query (.file opened ctx) ∧ opened.stat.isDir = false ∧
      planResponse crates (requestFacts cfg data opened.stat ctx) (fileMeta opened.stat) =
        some plan ∧
      replyHeaders = responseHeaders plan ∧ sent = plannedBody opened.content plan.body := by
  cases h with
  | refused hrefusal hanswer =>
      obtain ⟨status, refusalHeaders, rfl, -⟩ := refusal_reply hrefusal
      nomatch hanswer
  | @found data query outcome _ hstarts hfinds hresponse =>
      cases outcome with
      | reply status headers => nomatch hresponse
      | page entries =>
          obtain ⟨html, -, hcall⟩ := Option.map_eq_some_iff.mp hresponse
          nomatch hcall
      | file opened ctx =>
          obtain ⟨plan, hplan, hcall⟩ := Option.map_eq_some_iff.mp hresponse
          cases hcall
          obtain ⟨n, hwalk⟩ := hfinds
          exact ⟨data, query, opened, ctx, plan, hstarts, ⟨n, hwalk⟩, walk_file hwalk, hplan,
            rfl, rfl⟩

theorem query_isRead (query : Query) : (query.op cfg data).isRead = false := by
  cases query <;> rfl

theorem walk_lookupRule :
    LookupRule crates cfg (store.serves contents headers)
      (AwaitsQuery crates cfg store headers) (AnswersWalk crates cfg store contents headers) where
  refuse := by
    rintro headers' reaction rfl hrefusal
    exact Or.inl hrefusal
  start := by
    rintro headers' data candidate rest rfl hnone haccepts
    exact ⟨.first candidate rest, .first candidate rest, ⟨hnone, candidate, rest, haccepts, rfl⟩,
      rfl, rfl, fun _ => Iff.rfl⟩
  next := by
    rintro data phase op event reaction phase' op' - ⟨first, query, hstarts, rfl, rfl, hfinds⟩
      hyields hreact hnext
    have hfollows := query_follows crates hyields
    rw [hreact] at hfollows
    obtain ⟨next, hleads, rfl, rfl⟩ := hfollows.next hnext
    exact ⟨first, next, hstarts, rfl, rfl,
      fun outcome => (finds_next hleads).symm.trans (hfinds outcome)⟩
  answer := by
    rintro data phase op event reaction call - ⟨first, query, hstarts, rfl, rfl, hfinds⟩
      hyields hreact hanswer
    have hfollows := query_follows crates hyields
    rw [hreact] at hfollows
    cases hfollows with
    | @ends outcome _ hleads hrealizes =>
        exact Or.inr ⟨data, first, outcome, hstarts,
          (hfinds outcome).mp ((finds_ends hleads).mpr rfl), hrealizes⟩
    | goesOn _ hawaits => nomatch (awaits_answer hawaits).symm.trans hanswer
    | ignores _ _ hnone => nomatch hnone.symm.trans hanswer

/-- Every answer is that of the walk. -/
theorem run_replies (hchunk : 1 ≤ cfg.chunkSize)
    (hrun : StreamRun crates cfg (store.serves contents headers) State.initial actions s)
    (hanswer : s.answer = some call) :
    ∃ sent, Replies crates cfg store headers ⟨call, sent⟩ ∧ Sends sent s.trace := by
  obtain ⟨w, reaction, hfresh, hgood, hreaction, hmoves⟩ :=
    (lookup_rule walk_lookupRule hrun).answer_good hanswer
  rcases hgood with hrefusal | ⟨data, first, outcome, hstarts, hfinds, hrealizes⟩
  · exact ⟨[], .refused hrefusal hreaction, refusal_sends hrefusal hreaction hfresh hmoves⟩
  · obtain ⟨sent, hresponse, hsends⟩ :=
      realizes_response hchunk hrealizes hreaction hfresh hmoves
    exact ⟨sent, .found hstarts hfinds hresponse, hsends⟩

/-- The queries a lookup still takes where it awaits an operation. -/
noncomputable def queriesLeft (crates : Crates) (cfg : Config) (store : Store)
    (data : RequestData) (phase : Phase) : Op → ℕ
  | .openStat request ctx =>
      walkLength crates cfg store data (.opens phase request.path ctx)
  | .readDir path => walkLength crates cfg store data (.lists phase path)
  | .read _ _ _ _ => 0

theorem queriesLeft_op (query : Query) :
    queriesLeft crates cfg store data query.phase (query.op cfg data) =
      walkLength crates cfg store data query := by
  cases query <;> rfl

theorem walk_lookupRank (hcontents : Function.Surjective contents) {outcome : Outcome}
    (hstarts : Starts crates cfg headers data query)
    (hfinds : Finds crates cfg store data query outcome)
    (hresponse : outcome.response crates cfg data = some response) :
    LookupRank crates cfg (store.serves contents headers)
      (AwaitsQuery crates cfg store headers) (queriesLeft crates cfg store data) where
  requests := ⟨headers, rfl⟩
  completes := by
    rintro data' phase op ⟨first, query', -, -, rfl, -⟩
    exact serves_completes hcontents (query_isRead query')
  reacts := by
    rintro data' phase op event - ⟨first, query', hstarts', rfl, rfl, hsame⟩ hyields
    obtain ⟨rfl, rfl⟩ := hstarts.unique hstarts'
    have hfollows := query_follows crates hyields
    cases hreact : react crates cfg data' query'.phase event with
    | some reaction => exact ⟨reaction, rfl⟩
    | none =>
        rw [hreact] at hfollows
        cases hfollows with
        | panics hleads hnone =>
            cases (finds_ends hleads).mp ((hsame outcome).mpr hfinds)
            nomatch hnone.symm.trans hresponse
  decreases := by
    rintro data' phase op event reaction phase' op' - ⟨first, query', hstarts', rfl, rfl, hsame⟩
      hyields hreact hnext
    obtain ⟨rfl, rfl⟩ := hstarts.unique hstarts'
    have hfollows := query_follows crates hyields
    rw [hreact] at hfollows
    obtain ⟨next, hleads, rfl, rfl⟩ := hfollows.next hnext
    rw [queriesLeft_op, queriesLeft_op]
    exact walkLength_next hleads ((hsame outcome).mpr hfinds)

/-- A request that is refused awaits nothing. -/
theorem refused_lookupRank {reaction : Reaction} (h : refusal cfg headers = some reaction) :
    LookupRank crates cfg (store.serves contents headers)
      (AwaitsQuery crates cfg store headers) fun _ _ => 0 where
  requests := ⟨headers, rfl⟩
  completes := by
    rintro data phase op ⟨first, query, hstarts, -⟩
    nomatch h.symm.trans hstarts.1
  reacts := by
    rintro data phase op event - ⟨first, query, hstarts, -⟩
    nomatch h.symm.trans hstarts.1
  decreases := by
    rintro data phase op event reaction phase' op' - ⟨first, query, hstarts, -⟩
    nomatch h.symm.trans hstarts.1

/-- A request is answered with its response. -/
theorem Replies.responds (hchunk : 1 ≤ cfg.chunkSize) (hcontents : Function.Surjective contents)
    (h : Replies crates cfg store headers response) :
    Responds crates cfg (store.serves contents headers) (some response) where
  answers actions s call hrun hanswer := by
    obtain ⟨sent, hreplies, hsends⟩ := run_replies hchunk hrun hanswer
    exact ⟨sent, congrArg some (h.unique hreplies), hsends⟩
  reaches := by
    rintro - actions s hrun hactive
    cases h with
    | refused hrefusal _ =>
        exact lookup_reaches walk_lookupRule (refused_lookupRank hrefusal) hrun hactive
    | found hstarts hfinds hresponse =>
        exact lookup_reaches walk_lookupRule (walk_lookupRank hcontents hstarts hfinds hresponse)
          hrun hactive

/-- A request is answered with the response to what its walk finds. -/
theorem Finds.responds {outcome : Outcome} (hchunk : 1 ≤ cfg.chunkSize)
    (hcontents : Function.Surjective contents)
    (hstarts : Starts crates cfg headers data query)
    (hfinds : Finds crates cfg store data query outcome) :
    Responds crates cfg (store.serves contents headers) (outcome.response crates cfg data) := by
  cases hresponse : outcome.response crates cfg data with
  | some response => exact (Replies.found hstarts hfinds hresponse).responds hchunk hcontents
  | none =>
      refine ⟨?_, fun hne => absurd rfl hne⟩
      intro actions s call hrun hanswer
      obtain ⟨sent, hreplies, -⟩ := run_replies hchunk hrun hanswer
      cases hreplies with
      | refused hrefusal _ => nomatch hstarts.1.symm.trans hrefusal
      | found hstarts' hfinds' hresponse' =>
          obtain ⟨rfl, rfl⟩ := hstarts.unique hstarts'
          cases hfinds.unique hfinds'
          nomatch hresponse.symm.trans hresponse'

end Requests

end EnvoyFiles.Filter
