import EnvoyFiles.Core.PathGrammar
import EnvoyFiles.Filter.SequentialLookup

/-!
# The URLs of directory content

With `redirect_trailing_slash` an index file or a listing is served for request paths with
a trailing slash only.  Whether there is one is decided after the mount prefix is stripped,
which turns the bare prefix into `/`.
-/

namespace EnvoyFiles.Filter

open Text Path

/-! ## Directory content -/

/-- An index file is opened, or a directory is read. -/
def InDirectory : Phase → Op → Prop
  | .resolvingIndex _ _, _ => True
  | _, .readDir _ => True
  | _, _ => False

section Reacting

variable {crates : Crates} {cfg : Config} {data : RequestData} {phase phase' : Phase} {op op' : Op}
  {event : IoEvent} {reaction : Reaction} {status : ℕ} {headers : List (String × String)}
  {html : Bytes}

theorem IndexLeft.inDirectory {dirFs : PathBuf} {pending : List (PathBuf × String)}
    (hredirect : cfg.redirectTrailingSlash = true)
    (h : IndexLeft crates cfg data phase dirFs pending) :
    InDirectory phase op ∨ data.trailingSlash = true := by
  cases h with
  | rest hphase =>
      rw [hphase]
      exact Or.inl trivial
  | all hstay _ =>
      rw [hredirect, Bool.and_true, Bool.not_eq_false'] at hstay
      exact Or.inr hstay

/-- The filter is in a directory next only if it was, or with a trailing slash. -/
theorem react_awaits (hredirect : cfg.redirectTrailingSlash = true)
    (hreact : react crates cfg data phase event = some reaction)
    (h : reaction.awaits cfg data phase = some (phase', op'))
    (hdirectory : InDirectory phase' op') : InDirectory phase op ∨ data.trailingSlash = true := by
  cases react_cases hreact with
  | candidate _ =>
      cases h
      exact hdirectory.elim
  | index hleft => exact hleft.inDirectory hredirect
  | list hleft _ => exact hleft.inDirectory hredirect
  | _ => nomatch h

/-- Only the listing of a directory that was read is a complete response with a body. -/
theorem react_page
    (h : react crates cfg data phase event = some (.reply status headers (some html))) :
    ∃ entries, event = .dir (.ok entries) ∧ listingPage crates cfg data entries = some html ∧
      status = 200 := by
  cases react_cases h with
  | page hpage => exact ⟨_, rfl, hpage, rfl⟩

/-- A directory is read by no other operation. -/
theorem onDone_dir {completion : Completion} {result : ReadDirResult}
    (h : op.onDone completion = some (.dir result)) : ∃ path, op = .readDir path := by
  cases op with
  | readDir path => exact ⟨path, rfl⟩
  | openStat request ctx =>
      cases completion with
      | openStat result =>
          cases result with
          | ok opened => nomatch h
          | error error => nomatch h
      | read result => nomatch h
      | readDir result => nomatch h
  | read handle offset len seq =>
      cases completion with
      | openStat result => nomatch h
      | read result => nomatch h
      | readDir result => nomatch h

end Reacting

/-! ## Runs -/

/-- A request that resolves to a path with a trailing slash. -/
def AsksForDirectory (crates : Crates) (cfg : Config) (requests : List (Bytes × Bytes) → Prop)
    (data : RequestData) : Prop :=
  data.trailingSlash = true ∧ ∃ headers candidates, requests headers ∧
    Accepts crates cfg headers data candidates

/-- The response that is started is an index file or a listing. -/
inductive ServesDirectory (w s : State) : Prop where
  /-- A file, after an index file was looked for. -/
  | index {dirFs : PathBuf} {pending : List (PathBuf × String)}
      {headers : List (String × String)} {endStream : Bool} :
      w.phase = .resolvingIndex dirFs pending →
      s.answer = some (.sendResponseHeaders headers endStream) → ServesDirectory w s
  | listing {status : ℕ} {headers : List (String × String)} {html : Bytes} :
      s.answer = some (.sendResponse status headers (some html)) → ServesDirectory w s

section Runs

variable {crates : Crates} {cfg : Config} {env : Env} {s w : State} {before after : List Action}

/-- In a directory the request has a trailing slash. -/
theorem slashed_lookupRule (hredirect : cfg.redirectTrailingSlash = true) :
    LookupRule crates cfg env
      (fun data phase op => (∃ headers candidates, env.requests headers ∧
          Accepts crates cfg headers data candidates) ∧
        (InDirectory phase op → data.trailingSlash = true))
      (fun reaction => ∀ status headers html, reaction = .reply status headers (some html) →
        ∃ data, AsksForDirectory crates cfg env.requests data) where
  refuse := by
    rintro headers reaction - hrefusal status replyHeaders html rfl
    obtain ⟨status, replyHeaders, hreply, -⟩ := refusal_reply hrefusal
    nomatch hreply
  start := by
    intro headers data candidate rest hrequests _ haccepts
    exact ⟨⟨headers, candidate :: rest, hrequests, haccepts⟩, False.elim⟩
  next := by
    rintro data phase op event reaction phase' op' - ⟨haccepts, hslash⟩ - hreact hnext
    refine ⟨haccepts, fun hdirectory => ?_⟩
    rcases react_awaits hredirect hreact hnext hdirectory with hwas | htrailing
    · exact hslash hwas
    · exact htrailing
  answer := by
    rintro data phase op event reaction call - ⟨haccepts, hslash⟩
      ⟨v, completion, -, hevent⟩ hreact - status headers html rfl
    obtain ⟨entries, rfl, -⟩ := react_page hreact
    obtain ⟨path, rfl⟩ := onDone_dir hevent
    have hdirectory : InDirectory phase (.readDir path) := by
      cases phase <;> trivial
    exact ⟨data, hslash hdirectory, haccepts⟩

/-- A stream that is gone is not answered any more. -/
theorem run_gone (hrun : StreamRun crates cfg env w after s) (hcomplete : w.complete = true)
    (hnone : w.answer = none) : s.answer = none := by
  have hgone : s.complete = true ∧ s.trace = w.trace := by
    refine hrun.invariant (I := fun s => s.complete = true ∧ s.trace = w.trace)
      ⟨hcomplete, rfl⟩ ?_
    rintro u action v ⟨hcomplete, htrace⟩ - hstep
    obtain ⟨hcomplete', htrace'⟩ := step_gone hcomplete hstep
    exact ⟨hcomplete', htrace'.trans htrace⟩
  rw [State.answer] at hnone ⊢
  rw [hgone.2]
  exact hnone

/-- Directory content is served for a request that resolves with a trailing slash. -/
theorem serves_asked (hredirect : cfg.redirectTrailingSlash = true)
    (hbefore : StreamRun crates cfg env State.initial before w)
    (hafter : StreamRun crates cfg env w after s) (hserves : ServesDirectory w s) :
    ∃ data, AsksForDirectory crates cfg env.requests data := by
  have hrule := @slashed_lookupRule crates cfg env hredirect
  cases hserves with
  | listing hanswer =>
      obtain ⟨v, reaction, -, hgood, hreaction, -⟩ :=
        (lookup_rule hrule (hbefore.append hafter)).answer_good hanswer
      exact hgood _ _ _ (reply_of_answer hreaction)
  | index hphase hanswer =>
      have hresolving : w.phase.isResolving = true := by
        rw [hphase]
        rfl
      have hnone := unanswered_of_resolving (run_obeys hbefore) hresolving
      cases lookup_rule hrule hbefore with
      | idle hunasked =>
          rw [hunasked.phase] at hphase
          nomatch hphase
      | @seeking data op _ hplace =>
          obtain ⟨haccepts, hslash⟩ := hplace
          rw [hphase] at hslash
          exact ⟨data, hslash trivial, haccepts⟩
      | answered _ _ _ _ hanswer' => nomatch hnone.symm.trans hanswer'
      | gone hcomplete _ => nomatch (run_gone hafter hcomplete hnone).symm.trans hanswer

end Runs

/-! ## The path of the client -/

/-- The path part ends with a slash. -/
def EndsWithSlash (path : String) : Prop :=
  (stripQueryAndFragment path).toList.getLast? = some '/'

/-- The path part is not that of the mount prefix, or the prefix itself has a path part
that ends with a slash. -/
def SlashKept (cfg : Config) (path : String) : Prop :=
  ∀ pre, cfg.stripPrefix = some pre →
    stripQueryAndFragment path ≠ stripQueryAndFragment pre ∨ EndsWithSlash pre

section Paths

variable {cfg : Config} {path mounted pre rest relative : String} {policy : PathPolicy}
  {trailingSlash : Bool}

theorem resolve_trailingSlash
    (h : resolveRequestPath mounted policy = .ok relative trailingSlash) :
    trailingSlash = true ↔ EndsWithSlash mounted := by
  rw [resolve_trailing h]
  exact beq_iff_eq

theorem toList_stripQuery (path : String) : (stripQueryAndFragment path).toList =
    path.toList.takeWhile fun c => !(c == '?' || c == '#') :=
  String.toList_ofList

/-- Where the path part of the prefix is not all, the prefix has no query, and the path part
goes on behind it. -/
theorem stripQuery_append
    (h : stripQueryAndFragment (pre ++ rest) ≠ stripQueryAndFragment pre) :
    (stripQueryAndFragment (pre ++ rest)).toList =
        pre.toList ++ (stripQueryAndFragment rest).toList ∧
      (stripQueryAndFragment rest).toList ≠ [] := by
  have hne : (stripQueryAndFragment (pre ++ rest)).toList ≠
      (stripQueryAndFragment pre).toList := fun heq => h (String.toList_injective heq)
  rw [toList_stripQuery, toList_stripQuery, String.toList_append, List.takeWhile_append] at hne
  rw [toList_stripQuery, toList_stripQuery, String.toList_append, List.takeWhile_append]
  split at hne
  · next hlength =>
      have hkept := (List.takeWhile_prefix fun c => !(c == '?' || c == '#')).eq_of_length
        hlength
      rw [if_pos hlength]
      refine ⟨rfl, fun hnil => hne ?_⟩
      rw [hnil, hkept, List.append_nil]
  · exact absurd rfl hne

/-- Stripping the prefix keeps the trailing slash of every path but the bare prefix. -/
theorem mounted_slash_iff (hmounted : mountedPath cfg path = some mounted)
    (hslash : EndsWithSlash mounted) : EndsWithSlash path ↔ SlashKept cfg path := by
  rw [mountedPath] at hmounted
  split at hmounted
  · next pre hpre =>
      have hkept : SlashKept cfg path ↔
          stripQueryAndFragment path ≠ stripQueryAndFragment pre ∨ EndsWithSlash pre := by
        rw [SlashKept]
        rw [hpre]
        constructor
        · intro h
          exact h pre rfl
        · rintro h _ ⟨⟩
          exact h
      rw [hkept]
      by_cases hbare : stripQueryAndFragment path = stripQueryAndFragment pre
      · rw [EndsWithSlash]
        rw [hbare]
        exact ⟨Or.inr, fun h => h.resolve_left (absurd rfl)⟩
      · refine ⟨fun _ => Or.inl hbare, fun _ => ?_⟩
        rw [stripMountPrefix] at hmounted
        split at hmounted
        · nomatch hmounted
        · next rest hrest =>
            obtain rfl := stripPrefix_eq_some.mp hrest
            obtain ⟨hpath, hmore⟩ := stripQuery_append hbare
            have hcut : ∀ c, rest.toList.head? = some c → (c == '?' || c == '#') = false := by
              intro c hc
              rw [toList_stripQuery] at hmore
              cases hchars : rest.toList with
              | nil =>
                  rw [hchars] at hc
                  nomatch hc
              | cons first tail =>
                  rw [hchars] at hc hmore
                  cases hc
                  by_contra hstart
                  rw [Bool.not_eq_false] at hstart
                  exact hmore (List.takeWhile_cons_of_neg (by simp [hstart]))
            have hrestSlash : EndsWithSlash rest := by
              split at hmounted
              · next hnil =>
                  rw [toList_stripQuery, List.head?_eq_none_iff.mp hnil] at hmore
                  exact absurd rfl hmore
              · cases hmounted
                exact hslash
              · next hquery => nomatch hcut '?' hquery
              · next hfragment => nomatch hcut '#' hfragment
              · nomatch hmounted
            rw [EndsWithSlash] at hrestSlash ⊢
            rw [hpath, List.getLast?_append_of_ne_nil _ hmore]
            exact hrestSlash
  · next hnone =>
      cases hmounted
      refine ⟨fun _ pre hpre => ?_, fun _ => hslash⟩
      nomatch hnone.symm.trans hpre

end Paths

/-- Directory content is served below a path that ends with a slash exactly if the request
is not for the bare mount prefix. -/
theorem directory_slash_iff {crates : Crates} {cfg : Config} {env : Env} {s w : State}
    {before after : List Action} (hredirect : cfg.redirectTrailingSlash = true)
    (hbefore : StreamRun crates cfg env State.initial before w)
    (hafter : StreamRun crates cfg env w after s) (hserves : ServesDirectory w s) :
    ∃ headers reentry, .requestHeaders headers reentry ∈ before ++ after ∧
      (EndsWithSlash ((RawRequestHeaders.collect headers).path.getD "") ↔
        SlashKept cfg ((RawRequestHeaders.collect headers).path.getD "")) := by
  obtain ⟨data, hslash, headers, candidates, ⟨reentry, hmem⟩, haccepts⟩ :=
    serves_asked hredirect (run_sending_of_subset (fun _ => List.mem_append_left _) hbefore)
      (run_sending_of_subset (fun _ => List.mem_append_right _) hafter) hserves
  obtain ⟨rawPath, relative, trailingSlash, hmounted, hresolve, rfl, -⟩ := haccepts
  exact ⟨headers, reentry, hmem,
    mounted_slash_iff hmounted ((resolve_trailingSlash hresolve).mp hslash)⟩

/-! ### Witness and counterexample -/

def mountedConfig : Config :=
  { Config.defaults ⟨"/srv"⟩ with stripPrefix := some "/static" }

/-- A directory opens, and then its index file. -/
def indexActions (path : String) : List Action :=
  [.requestHeaders (getHeaders path) [],
    .complete 0 (.openStat (.ok (⟨1⟩, ⟨0, 0, 0, true⟩, []))), .commit, .scheduled [],
    .complete 0 (.openStat (.ok (⟨2⟩, ⟨3, 0, 0, false⟩, [97, 98, 99]))), .commit]

/-- The index file is served with the next wakeup. -/
def indexServed (path : String) : Option Bool :=
  (replay Crates.plain mountedConfig State.initial (indexActions path)).bind fun w =>
    (step Crates.plain mountedConfig w (.scheduled [])).map fun s =>
      match w.phase, s.answer with
      | .resolvingIndex _ _, some (.sendResponseHeaders _ _) => true
      | _, _ => false

theorem servesDirectory_of_indexServed {path : String} (h : indexServed path = some true) :
    ∃ w s, StreamRun Crates.plain mountedConfig Env.any State.initial (indexActions path) w ∧
      StreamRun Crates.plain mountedConfig Env.any w [.scheduled []] s ∧
      ServesDirectory w s := by
  obtain ⟨w, hw, hserved⟩ := Option.bind_eq_some_iff.mp h
  obtain ⟨s, hs, hserved⟩ := Option.map_eq_some_iff.mp hserved
  refine ⟨w, s, Transition.Run.of_foldlM any_allows hw, .single trivial hs, ?_⟩
  split at hserved
  · next hphase hanswer => exact .index hphase hanswer
  · nomatch hserved

/-- The request of the run. -/
theorem indexActions_request {path : String} {headers : List (Bytes × Bytes)}
    {reentry : List (List Hook)}
    (h : .requestHeaders headers reentry ∈ indexActions path ++ [.scheduled []]) :
    headers = getHeaders path := by
  have hrequest : headers = getHeaders path ∧ reentry = [] := by
    simpa [indexActions] using h
  exact hrequest.1

theorem directory_slash_iff_docs :
    ∃ w s, ServesDirectory w s ∧ indexServed "/static/docs/" = some true ∧
      (EndsWithSlash "/static/docs/" ↔ SlashKept mountedConfig "/static/docs/") := by
  have hserved : indexServed "/static/docs/" = some true := by decide
  obtain ⟨w, s, hbefore, hafter, hserves⟩ := servesDirectory_of_indexServed hserved
  obtain ⟨headers, reentry, hmem, hiff⟩ := directory_slash_iff rfl hbefore hafter hserves
  rw [indexActions_request hmem] at hiff
  have hpath : (RawRequestHeaders.collect (getHeaders "/static/docs/")).path =
      some "/static/docs/" := by decide
  rw [hpath] at hiff
  exact ⟨w, s, hserves, hserved, hiff⟩

/-- The index file of the root is served for the bare mount prefix. -/
theorem bare_mount_serves_index :
    ¬∀ w s before after, StreamRun Crates.plain mountedConfig Env.any State.initial before w →
      StreamRun Crates.plain mountedConfig Env.any w after s → ServesDirectory w s →
        ∀ headers reentry, .requestHeaders headers reentry ∈ before ++ after →
          EndsWithSlash ((RawRequestHeaders.collect headers).path.getD "") := by
  intro hslash
  have hserved : indexServed "/static" = some true := by decide
  obtain ⟨w, s, hbefore, hafter, hserves⟩ := servesDirectory_of_indexServed hserved
  have hends := hslash w s _ _ hbefore hafter hserves (getHeaders "/static") []
    List.mem_cons_self
  exact absurd hends (by unfold EndsWithSlash; decide)

end EnvoyFiles.Filter
